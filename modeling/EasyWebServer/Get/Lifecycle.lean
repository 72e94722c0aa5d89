import EasyWebServer.Lib.Descriptors
import EasyWebServer.Lib.Threads
import EasyWebServer.Get.Server

/-!
# The life of a connection of the GET server

A descriptor has one user at a time: epoll, which is armed for it, an event of the batch, a
request in the queue, or the task of a thread.  `Owned` says so of the sockets and of all
tasks, where events and requests count as tasks that are still to begin.  A task knows what
its descriptor is (`TaskOk`): it is open for the connection of the task, or `close_conn` has
closed it.

`close_conn` closes the descriptor before it stores `-1` in `m_sockfd`, so another
connection can get the number while the slot is still in use.  `Owned.step` needs that
`init` does not store the number of a new connection in such a slot (`SlotFree`), and
`always_lifecycleOk` says that nothing else is needed.
-/

namespace EasyWebServer.Get

open Post (WriteExit Interest SockOp processOps closes)
open Transition Threads

/-! ## Tasks -/

namespace Task

/-- The slot that a task uses. -/
def slots : Task → List Nat
  | .register fd => [fd]
  | .process r => [r.fd]
  | .calls r (_ :: _) => [r.fd]
  | .closing r _ _ => [r.fd]
  | _ => []

/-- The descriptor of a new connection that no slot has yet. -/
def fresh : Task → Option Nat
  | .assign fd => some fd
  | .refuse fd => some fd
  | _ => none

/-- A new connection that is not counted yet. -/
def entering : Task → Nat
  | .assign _ => 1
  | .register _ => 1
  | .count _ => 1
  | .refuse _ => 1
  | _ => 0

/-- A connection that is closed and still counted. -/
def leaving : Task → Nat
  | .closing _ .clear _ => 1
  | .closing _ .decrement _ => 1
  | _ => 0

/-- The task has still to arm its descriptor. -/
def Arms : Task → Prop
  | .register _ => True
  | .process _ => True
  | .calls _ ops => ∃ ev, .modfd ev ∈ ops
  | .closing _ _ ops => ∃ ev, .modfd ev ∈ ops
  | _ => False

/-- The thread is neither in `init` nor in `close_conn`. -/
def Quiet : Task → Prop
  | .idle => True
  | .process _ => True
  | .calls _ _ => True
  | _ => False

instance (t : Task) : Decidable t.Quiet := by
  unfold Quiet
  split <;> infer_instance

end Task

/-- No call arms the descriptor behind another one. -/
def ArmsOnce : List SockOp → Prop
  | [] => True
  | .modfd _ :: ops => ∀ ev, .modfd ev ∉ ops
  | .closeConn :: ops => ArmsOnce ops

/-- The last call arms the descriptor. -/
def ArmsLast : List SockOp → Prop
  | [] => True
  | .modfd _ :: ops => ops = []
  | .closeConn :: ops => ops ≠ [] ∧ ArmsLast ops

/-- The tasks of a worker: it arms the descriptor at the end. -/
def Task.OfWorker : Task → Prop
  | .idle => True
  | .process _ => True
  | .calls _ ops => ArmsLast ops
  | .closing _ _ ops => ops ≠ [] ∧ ArmsLast ops
  | _ => False

/-! ## One user for a descriptor -/

/-- The descriptor is open, and not for a connection that no slot has yet. -/
def Live (k : Sockets) (all : List Task) (fd : Nat) : Prop :=
  fd ∈ k.fds ∧ ∀ t ∈ all, t.fresh ≠ some fd

/-- The descriptor of the request is open for its connection. -/
def Serves (k : Sockets) (all : List Task) (r : Request) : Prop :=
  Live k all r.fd ∧ k.fds.lookup r.fd = r.conn

/-- The descriptor of the request is closed, and its slot empty. -/
def Released (k : Sockets) (all : List Task) (r : Request) : Prop :=
  ¬ Live k all r.fd ∧ k.sockfd r.fd = none

/-- What a task knows of its descriptor. -/
def TaskOk (k : Sockets) (all : List Task) : Task → Prop
  | .idle => True
  | .assign fd => fd ∈ k.fds
  | .register fd => Live k all fd
  | .count _ => True
  | .refuse fd => fd ∈ k.fds
  | .process r => Serves k all r
  | .calls _ [] => True
  | .calls r (op :: ops) =>
      (Serves k all r ∨ Released k all r) ∧ ArmsOnce (op :: ops)
  | .closing r .remove ops => Serves k all r ∧ ArmsOnce ops
  | .closing r .clear ops => ¬ Live k all r.fd ∧ ArmsOnce ops
  | .closing r .decrement ops => Released k all r ∧ ArmsOnce ops

/-- Epoll reports the descriptor. -/
def Sockets.Armed (k : Sockets) (fd : Nat) : Prop := ∃ ev, k.epoll fd = some (some ev)

/-- Every descriptor has one user at most, and every user knows what it is. -/
structure Owned (k : Sockets) (all : List Task) : Prop where
  nodup : (holdings Task.slots all).Nodup
  ok : ∀ t ∈ all, TaskOk k all t
  armed : ∀ fd, k.Armed fd → Live k all fd ∧ ∀ t ∈ all, fd ∈ t.slots → ¬ t.Arms
  sockfd : ∀ fd, Live k all fd → k.sockfd fd = some fd
  count : k.userCount + total Task.entering all = k.fds.keys.length + total Task.leaving all
  calls : ∀ c ∈ k.calls, c.owner = c.conn

/-- A closed descriptor is not reported. -/
theorem Sockets.not_armed_close (k : Sockets) {fd : Nat} : ¬ (k.close fd).Armed fd := by
  rintro ⟨ev, hev⟩
  have hnone : (k.close fd).epoll fd = none := Function.update_self _ _ _
  rw [hnone] at hev
  cases hev

variable {k k' : Sockets} {all all' rest : List Task} {t t' : Task} {fd : Nat} {r : Request}

/-! ## What a change leaves alone -/

/-- What a task knows depends on its own descriptor only. -/
theorem TaskOk.frame (h : TaskOk k all t)
    (hslots : ∀ g ∈ t.slots, (Live k' all' g ↔ Live k all g) ∧
      (Live k all g → k'.fds.lookup g = k.fds.lookup g) ∧ k'.sockfd g = k.sockfd g)
    (hfresh : ∀ g, t.fresh = some g → g ∈ k.fds → g ∈ k'.fds) : TaskOk k' all' t := by
  have hserves : ∀ r : Request, r.fd ∈ t.slots → Serves k all r → Serves k' all' r := by
    rintro r hr ⟨hlive, hconn⟩
    obtain ⟨hiff, hlookup, -⟩ := hslots r.fd hr
    exact ⟨hiff.mpr hlive, (hlookup hlive).trans hconn⟩
  have hreleased : ∀ r : Request, r.fd ∈ t.slots → Released k all r → Released k' all' r := by
    rintro r hr ⟨hlive, hsock⟩
    obtain ⟨hiff, -, hsame⟩ := hslots r.fd hr
    exact ⟨fun hl => hlive (hiff.mp hl), hsame.trans hsock⟩
  cases t with
  | idle => trivial
  | assign fd => exact hfresh fd rfl h
  | register fd => exact (hslots fd List.mem_cons_self).1.mpr h
  | count fd => trivial
  | refuse fd => exact hfresh fd rfl h
  | process r => exact hserves r List.mem_cons_self h
  | calls r ops =>
    rcases ops with _ | ⟨op, ops⟩
    · trivial
    · exact ⟨h.1.imp (hserves r List.mem_cons_self) (hreleased r List.mem_cons_self), h.2⟩
  | closing r step ops =>
    cases step with
    | remove => exact ⟨hserves r List.mem_cons_self h.1, h.2⟩
    | clear =>
      exact ⟨fun hl => h.1 ((hslots r.fd List.mem_cons_self).1.mp hl), h.2⟩
    | decrement => exact ⟨hreleased r List.mem_cons_self h.1, h.2⟩

theorem Owned.perm (h : Owned k all) (hp : all.Perm all') : Owned k all' := by
  have hlive : ∀ fd, Live k all' fd ↔ Live k all fd := by
    intro fd
    unfold Live
    simp only [hp.mem_iff]
  refine ⟨(hp.flatMap_right _).nodup_iff.mp h.nodup, fun t ht => ?_, fun fd hfd => ?_,
    fun fd hl => h.sockfd fd ((hlive fd).mp hl), ?_, h.calls⟩
  · exact (h.ok t (hp.mem_iff.mpr ht)).frame (fun g _ => ⟨hlive g, fun _ => rfl, rfl⟩)
      (fun _ _ hg => hg)
  · obtain ⟨hl, hslots⟩ := h.armed fd hfd
    exact ⟨(hlive fd).mpr hl, fun t ht => hslots t (hp.mem_iff.mpr ht)⟩
  · have hentering := (hp.map Task.entering).sum_eq
    have hleaving := (hp.map Task.leaving).sum_eq
    have hcount := h.count
    unfold total at hcount ⊢
    rw [← hentering, ← hleaving]
    exact hcount

/-- The slot of a task is not the slot of another one. -/
theorem Owned.not_mem_slots (h : Owned k (t :: rest)) (hfd : fd ∈ t.slots) {u : Task}
    (hu : u ∈ rest) : fd ∉ u.slots := by
  have hnodup : (t.slots ++ holdings Task.slots rest).Nodup := h.nodup
  intro hmem
  exact (List.nodup_append.mp hnodup).2.2 fd hfd fd (List.mem_flatMap.mpr ⟨u, hu, hmem⟩) rfl

theorem live_congr (hfds : k'.fds = k.fds) (hfresh : t'.fresh = t.fresh) (fd : Nat) :
    Live k' (t' :: rest) fd ↔ Live k (t :: rest) fd := by
  unfold Live
  simp only [List.forall_mem_cons, hfresh, hfds]

/-- A task goes on without touching a descriptor. -/
theorem Owned.swap (h : Owned k (t :: rest)) {n : Int} (hslots : t'.slots.Sublist t.slots)
    (hfresh : t'.fresh = t.fresh) (hok : TaskOk k (t :: rest) t') (harms : t'.Arms → t.Arms)
    (hcount : n + t'.entering + t.leaving = k.userCount + t.entering + t'.leaving) :
    Owned { k with userCount := n } (t' :: rest) := by
  have hlive : ∀ fd, Live { k with userCount := n } (t' :: rest) fd ↔ Live k (t :: rest) fd :=
    live_congr rfl hfresh
  have hframe : ∀ u, TaskOk k (t :: rest) u → TaskOk { k with userCount := n } (t' :: rest) u :=
    fun u hu => hu.frame (fun g _ => ⟨hlive g, fun _ => rfl, rfl⟩) (fun _ _ hg => hg)
  refine ⟨(hslots.append_right _).nodup h.nodup, ?_, fun fd hfd => ?_,
    fun fd hl => h.sockfd fd ((hlive fd).mp hl), ?_, h.calls⟩
  · refine List.forall_mem_cons.mpr ⟨hframe t' hok, fun u hu => ?_⟩
    exact hframe u (h.ok u (List.mem_cons_of_mem t hu))
  · obtain ⟨hl, harmed⟩ := h.armed fd hfd
    obtain ⟨ht, hrest⟩ := List.forall_mem_cons.mp harmed
    refine ⟨(hlive fd).mpr hl, List.forall_mem_cons.mpr ⟨fun hmem hArms => ?_, hrest⟩⟩
    exact ht (hslots.subset hmem) (harms hArms)
  · have hold := h.count
    simp only [total, List.map_cons, List.sum_cons] at hold ⊢
    push_cast at hold ⊢
    omega

/-- A change at one descriptor. -/
structure SameOff (fd : Nat) (k : Sockets) (all : List Task) (k' : Sockets)
    (all' : List Task) : Prop where
  live : ∀ g, g ≠ fd → (Live k' all' g ↔ Live k all g)
  lookup : ∀ g, g ≠ fd → k'.fds.lookup g = k.fds.lookup g
  sockfd : ∀ g, g ≠ fd → k'.sockfd g = k.sockfd g
  epoll : ∀ g, g ≠ fd → k'.epoll g = k.epoll g

/-- A task changes one descriptor. -/
theorem Owned.change (h : Owned k (t :: rest)) (hoff : SameOff fd k (t :: rest) k' (t' :: rest))
    (hslots : ∀ g ∈ t'.slots, g = fd) (hnodup : (t'.slots ++ holdings Task.slots rest).Nodup)
    (hrest : ∀ u ∈ rest, fd ∈ u.slots →
      (Live k' (t' :: rest) fd ↔ Live k (t :: rest) fd) ∧ ¬ Live k (t :: rest) fd ∧
        k'.sockfd fd = k.sockfd fd)
    (hfresh : ∀ u ∈ rest, u.fresh = some fd → fd ∈ k.fds → fd ∈ k'.fds)
    (hok : TaskOk k' (t' :: rest) t')
    (harmed : k'.Armed fd → Live k' (t' :: rest) fd ∧
      ∀ u ∈ t' :: rest, fd ∈ u.slots → ¬ u.Arms)
    (hsockfd : Live k' (t' :: rest) fd → k'.sockfd fd = some fd)
    (hcount : k'.userCount + t'.entering + t.leaving + k.fds.keys.length =
      k.userCount + t.entering + t'.leaving + k'.fds.keys.length)
    (hcalls : ∀ c ∈ k'.calls, c.owner = c.conn) : Owned k' (t' :: rest) := by
  refine ⟨hnodup, List.forall_mem_cons.mpr ⟨hok, fun u hu => ?_⟩, fun g hg => ?_, fun g hg => ?_,
    ?_, hcalls⟩
  · refine (h.ok u (List.mem_cons_of_mem t hu)).frame (fun g hg => ?_) (fun g hg hopen => ?_)
    · by_cases hgfd : g = fd
      · subst hgfd
        obtain ⟨hlive, hclosed, hsock⟩ := hrest u hu hg
        exact ⟨hlive, fun hl => absurd hl hclosed, hsock⟩
      · exact ⟨hoff.live g hgfd, fun _ => hoff.lookup g hgfd, hoff.sockfd g hgfd⟩
    · by_cases hgfd : g = fd
      · subst hgfd
        exact hfresh u hu hg hopen
      · rw [← AList.lookup_isSome, hoff.lookup g hgfd, AList.lookup_isSome]
        exact hopen
  · by_cases hgfd : g = fd
    · subst hgfd
      exact harmed hg
    · unfold Sockets.Armed at hg
      rw [hoff.epoll g hgfd] at hg
      obtain ⟨hl, hArms⟩ := h.armed g hg
      refine ⟨(hoff.live g hgfd).mpr hl, List.forall_mem_cons.mpr ⟨fun hmem => ?_, ?_⟩⟩
      · exact absurd (hslots g hmem) hgfd
      · exact fun u hu => hArms u (List.mem_cons_of_mem t hu)
  · by_cases hgfd : g = fd
    · subst hgfd
      exact hsockfd hg
    · rw [hoff.sockfd g hgfd]
      exact h.sockfd g ((hoff.live g hgfd).mp hg)
  · have hold := h.count
    simp only [total, List.map_cons, List.sum_cons] at hold ⊢
    push_cast at hold ⊢
    omega

/-- A task changes its own descriptor. -/
theorem Owned.changeOwn (h : Owned k (t :: rest)) (hfd : t.slots = [fd])
    (hoff : SameOff fd k (t :: rest) k' (t' :: rest)) (hslots : t'.slots.Sublist [fd])
    (hfresh : ∀ u ∈ rest, u.fresh = some fd → fd ∈ k.fds → fd ∈ k'.fds)
    (hok : TaskOk k' (t' :: rest) t')
    (harmed : k'.Armed fd → Live k' (t' :: rest) fd ∧ (fd ∈ t'.slots → ¬ t'.Arms))
    (hsockfd : Live k' (t' :: rest) fd → k'.sockfd fd = some fd)
    (hcount : k'.userCount + t'.entering + t.leaving + k.fds.keys.length =
      k.userCount + t.entering + t'.leaving + k'.fds.keys.length)
    (hcalls : ∀ c ∈ k'.calls, c.owner = c.conn) : Owned k' (t' :: rest) := by
  have hother : ∀ u ∈ rest, fd ∉ u.slots := fun u hu =>
    h.not_mem_slots (by rw [hfd]; exact List.mem_cons_self) hu
  refine h.change hoff (fun g hg => List.mem_singleton.mp (hslots.subset hg)) ?_
    (fun u hu hmem => absurd hmem (hother u hu)) hfresh hok (fun ha => ?_) hsockfd hcount hcalls
  · rw [← hfd] at hslots
    exact (hslots.append_right _).nodup h.nodup
  · obtain ⟨hl, hArms⟩ := harmed ha
    exact ⟨hl, List.forall_mem_cons.mpr ⟨hArms, fun u hu hmem => absurd hmem (hother u hu)⟩⟩

/-! ## The steps of a task -/

/-- A store to the slot leaves the rest of the sockets alone. -/
theorem setSockfd_off (hfresh : ∀ g, g ≠ fd → (Live k (t' :: rest) g ↔ Live k (t :: rest) g))
    (value : Option Nat) :
    SameOff fd k (t :: rest) (k.setSockfd fd value) (t' :: rest) where
  live := hfresh
  lookup _ _ := rfl
  sockfd _ hg := Function.update_of_ne hg _ _
  epoll _ _ := rfl

/-- `init` stores the descriptor in a slot that nobody uses. -/
theorem Owned.assign (h : Owned k (.assign fd :: rest))
    (hfree : fd ∉ holdings Task.slots rest) (hinit : ∀ u ∈ rest, u.fresh = none) :
    Owned (k.setSockfd fd (some fd)) (.register fd :: rest) := by
  have hopen : fd ∈ k.fds := h.ok _ List.mem_cons_self
  have hlive : Live (k.setSockfd fd (some fd)) (.register fd :: rest) fd :=
    ⟨hopen, List.forall_mem_cons.mpr ⟨nofun, fun u hu => by simp [hinit u hu]⟩⟩
  have hclosed : ¬ Live k (.assign fd :: rest) fd :=
    fun hl => hl.2 _ List.mem_cons_self rfl
  have hoff : SameOff fd k (.assign fd :: rest) (k.setSockfd fd (some fd))
      (.register fd :: rest) := by
    refine setSockfd_off (fun g hg => ?_) _
    unfold Live
    simp only [List.forall_mem_cons, Task.fresh, ne_eq, Option.some.injEq, reduceCtorEq,
      not_false_eq_true, true_and, Ne.symm hg]
  have hother : ∀ u ∈ rest, fd ∉ u.slots := fun u hu hmem =>
    hfree (List.mem_flatMap.mpr ⟨u, hu, hmem⟩)
  refine h.change hoff (fun g hg => List.mem_singleton.mp hg) ?_
    (fun u hu hmem => absurd hmem (hother u hu)) (fun _ _ _ hg => hg) hlive (fun ha => ?_)
    (fun _ => Function.update_self _ _ _) rfl h.calls
  · exact List.nodup_cons.mpr ⟨hfree, h.nodup⟩
  · exact absurd (h.armed fd ha).1 hclosed

/-- `addfd` arms the descriptor. -/
theorem Owned.register (h : Owned k (.register fd :: rest)) :
    Owned (k.addfd fd) (.count fd :: rest) := by
  have hlive : Live k (.register fd :: rest) fd := h.ok _ List.mem_cons_self
  unfold Sockets.addfd
  split_ifs with hready
  · have hlive' : ∀ g, Live { k with epoll := Function.update k.epoll fd (some (some .input)) }
        (.count fd :: rest) g ↔ Live k (.register fd :: rest) g := live_congr rfl rfl
    refine h.changeOwn rfl ⟨fun g _ => hlive' g, fun _ _ => rfl, fun _ _ => rfl,
      fun g hg => Function.update_of_ne hg _ _⟩ (List.nil_sublist _) (fun _ _ _ hg => hg) trivial
      (fun _ => ⟨(hlive' fd).mpr hlive, nofun⟩) (fun _ => h.sockfd fd hlive) rfl h.calls
  · exact h.swap (List.nil_sublist _) rfl trivial nofun rfl

/-- `show_error` closes the descriptor of a connection that no slot has. -/
theorem Owned.refuse (h : Owned k (.refuse fd :: rest)) (hinit : ∀ u ∈ rest, u.fresh = none) :
    Owned (k.close fd) (.idle :: rest) := by
  have hopen : fd ∈ k.fds := h.ok _ List.mem_cons_self
  have hclosed : ¬ Live k (.refuse fd :: rest) fd :=
    fun hl => hl.2 _ List.mem_cons_self rfl
  have hclosed' : ¬ Live (k.close fd) (.idle :: rest) fd :=
    fun hl => (AList.mem_erase.mp hl.1).1 rfl
  have hoff : SameOff fd k (.refuse fd :: rest) (k.close fd) (.idle :: rest) := by
    refine ⟨fun g hg => ?_, fun g hg => AList.lookup_erase_ne hg, fun _ _ => rfl,
      fun g hg => Function.update_of_ne hg _ _⟩
    unfold Live
    simp only [Sockets.close, AList.mem_erase, List.forall_mem_cons, Task.fresh, ne_eq,
      Option.some.injEq, reduceCtorEq, not_false_eq_true, true_and, hg, Ne.symm hg]
  have hlength := Descriptors.length_keys_erase hopen
  refine h.change hoff nofun ?_ (fun u _ _ => ⟨iff_of_false hclosed' hclosed, hclosed, rfl⟩)
    (fun u hu hg => ?_) trivial (fun ha => ?_) (fun hl => absurd hl hclosed') ?_ h.calls
  · exact h.nodup
  · rw [hinit u hu] at hg
    cases hg
  · exact absurd ha k.not_armed_close
  · simp only [Sockets.close, Task.entering, Task.leaving]
    push_cast
    omega

theorem Serves.sockfd (h : Owned k all) (hr : Serves k all r) : k.sockfd r.fd = some r.fd :=
  h.sockfd r.fd hr.1

/-- Behind a call that leaves the descriptor as it is, the task knows what it knew. -/
theorem calls_ok {ops : List SockOp} (h : Serves k all r ∨ Released k all r)
    (honce : ArmsOnce ops) : TaskOk k all (.calls r ops) := by
  rcases ops with _ | ⟨op, ops⟩
  · trivial
  · exact ⟨h, honce⟩

theorem calls_slots (r : Request) (ops : List SockOp) :
    (Task.calls r ops).slots.Sublist [r.fd] := by
  rcases ops with _ | ⟨op, ops⟩
  · exact List.nil_sublist _
  · exact List.Sublist.refl _

theorem ArmsOnce.tail {op : SockOp} {ops : List SockOp} (h : ArmsOnce (op :: ops)) :
    ArmsOnce ops := by
  cases op with
  | closeConn => exact h
  | modfd ev =>
    have hnone : ∀ ev, .modfd ev ∉ ops := h
    clear h
    induction ops with
    | nil => trivial
    | cons op ops ih =>
      cases op with
      | modfd ev' => exact absurd List.mem_cons_self (hnone ev')
      | closeConn => exact ih fun ev' hmem => hnone ev' (List.mem_cons_of_mem _ hmem)

/-- `modfd` arms the descriptor of the connection, or no descriptor. -/
theorem Owned.modfd {ev : Interest} {ops : List SockOp}
    (h : Owned k (.calls r (.modfd ev :: ops) :: rest)) :
    Owned (k.modfd r ev) (.calls r ops :: rest) := by
  obtain ⟨hconn, honce⟩ := h.ok _ List.mem_cons_self
  have hquiet : Owned k (.calls r ops :: rest) := by
    refine h.swap (calls_slots r ops) rfl (calls_ok hconn honce.tail) ?_ rfl
    exact fun ⟨ev', hmem⟩ => absurd hmem (honce ev')
  unfold Sockets.modfd
  rcases hconn with hserves | ⟨hclosed, hnone⟩
  · rw [hserves.sockfd h]
    simp only
    split_ifs with hepoll
    · exact hquiet
    · have hsock := hserves.sockfd h
      have hlive : ∀ g, Live { k.record r r.fd with
          epoll := Function.update k.epoll r.fd (some (some ev)) } (.calls r ops :: rest) g ↔
          Live k (.calls r (.modfd ev :: ops) :: rest) g := live_congr rfl rfl
      refine h.changeOwn rfl ⟨fun g _ => hlive g, fun _ _ => rfl, fun _ _ => rfl,
        fun g hg => Function.update_of_ne hg _ _⟩ (calls_slots r ops) (fun _ _ _ hg => hg) ?_
        (fun _ => ⟨(hlive _).mpr hserves.1, ?_⟩) (fun _ => hsock) rfl ?_
      · exact calls_ok (Or.inl ⟨(hlive _).mpr hserves.1, hserves.2⟩) honce.tail
      · exact fun _ ⟨ev', hmem⟩ => absurd hmem (honce ev')
      · intro c hc
        rcases List.mem_append.mp hc with hc | hc
        · exact h.calls c hc
        · rw [List.mem_singleton.mp hc]
          exact hserves.2
  · rw [hnone]
    exact hquiet

/-- `removefd` closes the descriptor of the connection. -/
theorem Owned.remove {ops : List SockOp} (h : Owned k (.closing r .remove ops :: rest)) :
    Owned (k.removefd r) (.closing r .clear ops :: rest) := by
  obtain ⟨hserves, honce⟩ := h.ok _ List.mem_cons_self
  have hopen : r.fd ∈ k.fds := hserves.1.1
  have hremove : k.removefd r = (k.record r r.fd).close r.fd := by
    unfold Sockets.removefd
    rw [hserves.sockfd h]
    exact if_pos hopen
  have hclosed : ¬ Live ((k.record r r.fd).close r.fd) (.closing r .clear ops :: rest) r.fd :=
    fun hl => (AList.mem_erase.mp hl.1).1 rfl
  have hoff : SameOff r.fd k (.closing r .remove ops :: rest) ((k.record r r.fd).close r.fd)
      (.closing r .clear ops :: rest) := by
    refine ⟨fun g hg => ?_, fun g hg => AList.lookup_erase_ne hg, fun _ _ => rfl,
      fun g hg => Function.update_of_ne hg _ _⟩
    unfold Live
    simp only [Sockets.close, Sockets.record, AList.mem_erase, List.forall_mem_cons, Task.fresh,
      ne_eq, hg, not_false_eq_true, true_and]
  have hlength := Descriptors.length_keys_erase hopen
  rw [hremove]
  refine h.changeOwn rfl hoff (List.Sublist.refl _) (fun u hu hg => ?_) ⟨hclosed, honce⟩
    (fun ha => absurd ha (Sockets.not_armed_close _)) (fun hl => absurd hl hclosed) ?_ ?_
  · exact absurd hg (hserves.1.2 u (List.mem_cons_of_mem _ hu))
  · simp only [Sockets.close, Sockets.record, Task.entering, Task.leaving]
    push_cast
    omega
  · intro c hc
    rcases List.mem_append.mp hc with hc | hc
    · exact h.calls c hc
    · rw [List.mem_singleton.mp hc]
      exact hserves.2

/-- The store of `-1` empties a slot whose descriptor is closed. -/
theorem Owned.clear {ops : List SockOp} (h : Owned k (.closing r .clear ops :: rest)) :
    Owned (k.setSockfd r.fd none) (.closing r .decrement ops :: rest) := by
  obtain ⟨hclosed, honce⟩ := h.ok _ List.mem_cons_self
  have hlive : ∀ g, Live k (.closing r .decrement ops :: rest) g ↔
      Live k (.closing r .clear ops :: rest) g := live_congr rfl rfl
  refine h.changeOwn rfl (setSockfd_off (fun g _ => hlive g) none) (List.Sublist.refl _)
    (fun _ _ _ hg => hg) ⟨⟨fun hl => hclosed ((hlive _).mp hl), Function.update_self _ _ _⟩, honce⟩
    (fun ha => absurd (h.armed r.fd ha).1 hclosed) (fun hl => absurd ((hlive _).mp hl) hclosed) rfl
    h.calls

/-- A step of a task keeps the invariant, when `init` finds its slot free. -/
theorem Owned.step (h : Owned k (t :: rest)) (hstep : taskStep k t = some (k', t'))
    (hfree : ∀ fd, t = .assign fd → fd ∉ holdings Task.slots rest)
    (hinit : t.fresh ≠ none → ∀ u ∈ rest, u.fresh = none) : Owned k' (t' :: rest) := by
  have hok := h.ok t List.mem_cons_self
  cases t with
  | idle => cases hstep
  | process r => cases hstep
  | assign fd =>
    cases hstep
    exact h.assign (hfree fd rfl) (hinit nofun)
  | register fd =>
    cases hstep
    exact h.register
  | count fd =>
    cases hstep
    refine h.swap (List.Sublist.refl _) rfl trivial id ?_
    simp only [Task.entering, Task.leaving]
    push_cast
    omega
  | refuse fd =>
    cases hstep
    exact h.refuse (hinit nofun)
  | calls r ops =>
    rcases ops with _ | ⟨_ | _, ops⟩
    · cases hstep
      exact h.swap (List.Sublist.refl _) rfl trivial nofun rfl
    · cases hstep
      exact h.modfd
    · obtain ⟨hconn, honce⟩ := hok
      rw [taskStep] at hstep
      split_ifs at hstep with hnone
      · cases hstep
        refine h.swap (calls_slots r ops) rfl (calls_ok hconn honce.tail) ?_ rfl
        exact fun ⟨ev, hmem⟩ => ⟨ev, List.mem_cons_of_mem _ hmem⟩
      · cases hstep
        have hserves := hconn.resolve_right fun hr => hnone hr.2
        refine h.swap (List.Sublist.refl _) rfl ⟨hserves, honce⟩ ?_ rfl
        exact fun ⟨ev, hmem⟩ => ⟨ev, List.mem_cons_of_mem _ hmem⟩
  | closing r step ops =>
    cases step with
    | remove =>
      cases hstep
      exact h.remove
    | clear =>
      cases hstep
      exact h.clear
    | decrement =>
      cases hstep
      obtain ⟨hreleased, honce⟩ := hok
      refine h.swap (calls_slots r ops) rfl (calls_ok (Or.inr hreleased) honce) id ?_
      simp only [Task.entering, Task.leaving]
      push_cast
      omega

/-! ## Tasks that begin and end -/

/-- A task ends. -/
theorem Owned.drop (h : Owned k (t :: rest)) (hfresh : t.fresh = none)
    (hentering : t.entering = 0) (hleaving : t.leaving = 0) : Owned k rest := by
  have hlive : ∀ fd, Live k rest fd ↔ Live k (t :: rest) fd := by
    intro fd
    unfold Live
    simp only [List.forall_mem_cons, hfresh, ne_eq, reduceCtorEq, not_false_eq_true, true_and]
  refine ⟨?_, fun u hu => ?_, fun fd hfd => ?_, fun fd hl => h.sockfd fd ((hlive fd).mp hl), ?_,
    h.calls⟩
  · have hnodup : (t.slots ++ holdings Task.slots rest).Nodup := h.nodup
    exact (List.nodup_append.mp hnodup).2.1
  · exact (h.ok u (List.mem_cons_of_mem t hu)).frame (fun g _ => ⟨hlive g, fun _ => rfl, rfl⟩)
      (fun _ _ hg => hg)
  · obtain ⟨hl, hArms⟩ := h.armed fd hfd
    exact ⟨(hlive fd).mpr hl, (List.forall_mem_cons.mp hArms).2⟩
  · have hcount := h.count
    simp only [total, List.map_cons, List.sum_cons, hentering, hleaving, Nat.zero_add] at hcount
    exact hcount

/-- A request is handled. -/
theorem Owned.handle (h : Owned k (.process r :: rest)) {ops : List SockOp}
    (honce : ArmsOnce ops) : Owned k (.calls r ops :: rest) := by
  have hserves : Serves k (.process r :: rest) r := h.ok _ List.mem_cons_self
  exact h.swap (calls_slots r ops) rfl (calls_ok (Or.inl hserves) honce) (fun _ => trivial) rfl

/-- `accept` returns a descriptor that was not open. -/
theorem Owned.accept (h : Owned k (.idle :: rest)) (hclosed : fd ∉ k.fds)
    (hnew : t' = .assign fd ∨ t' = .refuse fd) : Owned (k.accept fd) (t' :: rest) := by
  have hslots : t'.slots = [] := by rcases hnew with rfl | rfl <;> rfl
  have hfresh : t'.fresh = some fd := by rcases hnew with rfl | rfl <;> rfl
  have hopen : fd ∈ (k.accept fd).fds := (AList.mem_insert _).mpr (Or.inl rfl)
  have hlive : ¬ Live k (.idle :: rest) fd := fun hl => hclosed hl.1
  have hlive' : ¬ Live (k.accept fd) (t' :: rest) fd :=
    fun hl => hl.2 t' List.mem_cons_self hfresh
  have hoff : SameOff fd k (.idle :: rest) (k.accept fd) (t' :: rest) := by
    refine ⟨fun g hg => ?_, fun g hg => AList.lookup_insert_ne hg, fun _ _ => rfl,
      fun _ _ => rfl⟩
    have hidle : Task.idle.fresh = none := rfl
    unfold Live
    simp only [Sockets.accept, AList.mem_insert, List.forall_mem_cons, hfresh, hidle, ne_eq,
      Option.some.injEq, reduceCtorEq, not_false_eq_true, true_and, hg, Ne.symm hg, false_or]
  have hlength := Descriptors.length_keys_insert hclosed k.nextConn
  refine h.change hoff (by rw [hslots]; nofun) ?_
    (fun u _ _ => ⟨iff_of_false hlive' hlive, hlive, rfl⟩)
    (fun _ _ _ _ => hopen) ?_ (fun ha => absurd (h.armed fd ha).1 hlive)
    (fun hl => absurd hl hlive') ?_ h.calls
  · rw [hslots]
    exact h.nodup
  · rcases hnew with rfl | rfl <;> exact hopen
  · have hentering : t'.entering = 1 := by rcases hnew with rfl | rfl <;> rfl
    have hleaving : t'.leaving = 0 := by rcases hnew with rfl | rfl <;> rfl
    show k.userCount + t'.entering + 0 + k.fds.keys.length =
      k.userCount + 0 + t'.leaving + (k.fds.insert fd k.nextConn).keys.length
    rw [hentering, hleaving, hlength]
    push_cast
    omega

theorem report_epoll (k : Sockets) (fds : List Nat) (fd : Nat) :
    (k.report fds).epoll fd = if fd ∈ fds then some none else k.epoll fd := rfl

/-- Epoll reports a descriptor that no other task uses. -/
theorem Owned.reportOne (h : Owned k all) (hfd : k.Armed fd)
    (hfree : fd ∉ holdings Task.slots all) :
    Owned (k.report [fd]) (.process ⟨fd, k.fds.lookup fd⟩ :: all) := by
  have hlive : ∀ g, Live (k.report [fd]) (.process ⟨fd, k.fds.lookup fd⟩ :: all) g ↔
      Live k all g := by
    intro g
    unfold Live
    simp only [List.forall_mem_cons, Task.fresh, Sockets.report, ne_eq, reduceCtorEq,
      not_false_eq_true, true_and]
  refine ⟨List.nodup_cons.mpr ⟨hfree, h.nodup⟩, List.forall_mem_cons.mpr ⟨?_, fun u hu => ?_⟩,
    fun g hg => ?_, fun g hl => h.sockfd g ((hlive g).mp hl), ?_, h.calls⟩
  · exact ⟨(hlive fd).mpr (h.armed fd hfd).1, rfl⟩
  · exact (h.ok u hu).frame (fun g _ => ⟨hlive g, fun _ => rfl, rfl⟩) (fun _ _ hg => hg)
  · obtain ⟨ev, hev⟩ := hg
    have hne : g ≠ fd := by
      rintro rfl
      rw [report_epoll, if_pos List.mem_cons_self] at hev
      cases hev
    rw [report_epoll, if_neg (by simpa using hne)] at hev
    obtain ⟨hl, hArms⟩ := h.armed g ⟨ev, hev⟩
    refine ⟨(hlive g).mpr hl, List.forall_mem_cons.mpr ⟨fun hmem => ?_, hArms⟩⟩
    exact absurd (List.mem_singleton.mp hmem) hne
  · have hcount := h.count
    simp only [total, List.map_cons, List.sum_cons, Task.entering, Task.leaving,
      Nat.zero_add] at hcount ⊢
    exact hcount

theorem report_cons (k : Sockets) (fd : Nat) (fds : List Nat) :
    (k.report fds).report [fd] = k.report (fd :: fds) := by
  simp only [Sockets.report, List.mem_cons, List.not_mem_nil, or_false]
  congr 1
  funext g
  by_cases hg : g = fd
  · rw [if_pos hg, if_pos (Or.inl hg)]
  · simp only [hg, if_false, false_or]

theorem holdings_process (reqs : List Request) :
    holdings Task.slots (reqs.map .process) = reqs.map Request.fd := by
  rw [holdings, List.flatMap_map, List.map_eq_flatMap]
  rfl

/-- Epoll reports descriptors that no task uses. -/
theorem Owned.report (h : Owned k all) {fds : List Nat} (hnodup : fds.Nodup)
    (harmed : ∀ fd ∈ fds, k.Armed fd ∧ fd ∉ holdings Task.slots all) :
    ∃ reqs : List Request, reqs.map Request.fd = fds ∧
      Owned (k.report fds) (reqs.map .process ++ all) := by
  induction fds with
  | nil => exact ⟨[], rfl, by simpa [Sockets.report] using h⟩
  | cons fd fds ih =>
    obtain ⟨hfd, hnodup⟩ := List.nodup_cons.mp hnodup
    obtain ⟨⟨⟨ev, hev⟩, hfree⟩, htail⟩ := List.forall_mem_cons.mp harmed
    obtain ⟨reqs, hreqs, hown⟩ := ih hnodup htail
    have harmed' : (k.report fds).Armed fd := ⟨ev, by rw [report_epoll, if_neg hfd, hev]⟩
    have hfree' : fd ∉ holdings Task.slots (reqs.map .process ++ all) := by
      rw [holdings, List.flatMap_append, List.mem_append]
      rintro (hmem | hmem)
      · have hmem' : fd ∈ holdings Task.slots (reqs.map .process) := hmem
        rw [holdings_process, hreqs] at hmem'
        exact hfd hmem'
      · exact hfree hmem
    have hone := hown.reportOne harmed' hfree'
    rw [report_cons] at hone
    refine ⟨⟨fd, (k.report fds).fds.lookup fd⟩ :: reqs, ?_, hone⟩
    rw [List.map_cons, hreqs]

/-! ## The tasks of a worker -/

theorem ArmsLast.once {ops : List SockOp} (h : ArmsLast ops) : ArmsOnce ops := by
  induction ops with
  | nil => trivial
  | cons op ops ih =>
    cases op with
    | modfd ev =>
      obtain rfl : ops = [] := h
      exact fun _ => List.not_mem_nil
    | closeConn => exact ih h.2

theorem ArmsLast.exists_modfd {ops : List SockOp} (h : ArmsLast ops) (hne : ops ≠ []) :
    ∃ ev, .modfd ev ∈ ops := by
  induction ops with
  | nil => exact absurd rfl hne
  | cons op ops ih =>
    cases op with
    | modfd ev => exact ⟨ev, List.mem_cons_self⟩
    | closeConn =>
      obtain ⟨ev, hev⟩ := ih h.2 h.1
      exact ⟨ev, List.mem_cons_of_mem _ hev⟩

/-- `process` arms the descriptor in its last call. -/
theorem processOps_armsLast (code : HttpCode) (writeRet : Bool) :
    ArmsLast (processOps code writeRet) := by
  unfold processOps
  split_ifs
  · exact rfl
  · exact ⟨nofun, rfl⟩
  · exact rfl

/-- The main loop closes the descriptor behind `write`, if at all. -/
theorem writeOps_once (exit : WriteExit) :
    ArmsOnce (exit.ops ++ if exit.result then [] else [.closeConn]) := by
  cases exit with
  | error => trivial
  | _ => exact fun _ => by simp [WriteExit.result]

namespace Task.OfWorker

theorem fresh (h : t.OfWorker) : t.fresh = none := by
  cases t with
  | assign fd => exact h.elim
  | refuse fd => exact h.elim
  | _ => rfl

theorem arms (h : t.OfWorker) (hfd : fd ∈ t.slots) : t.Arms := by
  cases t with
  | process r => trivial
  | calls r ops =>
    rcases ops with _ | ⟨op, ops⟩
    · cases hfd
    · exact ArmsLast.exists_modfd h nofun
  | closing r step ops => exact h.2.exists_modfd h.1
  | register fd => exact h.elim
  | _ => cases hfd

theorem step (h : t.OfWorker) (hstep : taskStep k t = some (k', t')) : t'.OfWorker := by
  cases t with
  | calls r ops =>
    rcases ops with _ | ⟨_ | _, ops⟩
    · cases hstep
      trivial
    · cases hstep
      obtain rfl : ops = [] := h
      trivial
    · rw [taskStep] at hstep
      split_ifs at hstep
      · cases hstep
        exact h.2
      · cases hstep
        exact h
  | closing r step ops =>
    cases step with
    | decrement =>
      cases hstep
      exact h.2
    | _ =>
      cases hstep
      exact h
  | idle => cases hstep
  | process r => cases hstep
  | _ => exact h.elim

end Task.OfWorker

/-! ## The server -/

/-- The client descriptors of the events that are still to be handled. -/
def Server.pendingFds (s : Server) : List Nat := s.pending.filterMap Event.fd?

/-- The tasks that are still to begin: what was reported, and what is queued. -/
def Server.waiting (s : Server) (reported : List Request) : List Task :=
  reported.map .process ++ s.workqueue.map .process

/-- `init` stores the descriptor of a new connection in its slot when no worker is in
`process` for this slot. -/
def SlotFree (s : Server) : ServerAction → Prop
  | .main =>
      match s.main with
      | .assign fd => fd ∉ holdings Task.slots s.workers
      | _ => True
  | _ => True

instance (s : Server) (a : ServerAction) : Decidable (SlotFree s a) := by
  unfold SlotFree
  split
  · split <;> infer_instance
  · infer_instance

/-- What the threads keep. -/
structure ServerOk (s : Server) : Prop where
  owned : ∃ reported : List Request, reported.map Request.fd = s.pendingFds ∧
    Owned s.sockets (s.main :: s.waiting reported ++ s.workers)
  of_worker : ∀ t ∈ s.workers, t.OfWorker
  at_rest : s.phase ≠ .dispatching → s.pending = [] ∧ s.main = .idle

variable {cfg : Config} {s s' : Server} {a : ServerAction}

theorem waiting_ofWorker {reported : List Request} :
    ∀ t ∈ s.waiting reported, ∃ r : Request, t = .process r := by
  intro t ht
  rcases List.mem_append.mp ht with ht | ht
  · obtain ⟨r, -, rfl⟩ := List.mem_map.mp ht
    exact ⟨r, rfl⟩
  · obtain ⟨r, -, rfl⟩ := List.mem_map.mp ht
    exact ⟨r, rfl⟩

/-- All tasks but that of the main thread are tasks of a worker. -/
theorem ServerOk.others (h : ServerOk s) (reported : List Request) :
    ∀ t ∈ s.waiting reported ++ s.workers, t.OfWorker := by
  intro t ht
  rcases List.mem_append.mp ht with ht | ht
  · obtain ⟨r, rfl⟩ := waiting_ofWorker t ht
    trivial
  · exact h.of_worker t ht

theorem startServer_ok (cfg : Config) (sockfd : Nat → Option Nat) :
    ServerOk (startServer cfg sockfd) := by
  have hidle : ∀ t ∈ (startServer cfg sockfd).main :: (startServer cfg sockfd).waiting [] ++
      (startServer cfg sockfd).workers, t = .idle := by
    intro t ht
    rcases List.mem_cons.mp ht with rfl | ht
    · rfl
    · exact (List.mem_replicate.mp ht).2
  refine ⟨⟨[], rfl, ?_, fun t ht => ?_, ?_, ?_, ?_, nofun⟩, fun t ht => ?_, fun _ => ⟨rfl, rfl⟩⟩
  · have hnil : holdings Task.slots ((startServer cfg sockfd).main ::
        (startServer cfg sockfd).waiting [] ++ (startServer cfg sockfd).workers) = [] := by
      refine List.flatMap_eq_nil_iff.mpr fun t ht => ?_
      rw [hidle t ht]
      rfl
    rw [hnil]
    exact List.nodup_nil
  · rw [hidle t ht]
    trivial
  · rintro fd ⟨ev, hev⟩
    cases hev
  · intro fd hl
    exact absurd hl.1 (AList.notMem_empty fd)
  · rw [total_eq_zero.mpr fun t ht => by rw [hidle t ht]; rfl,
      total_eq_zero.mpr fun t ht => by rw [hidle t ht]; rfl]
    rfl
  · rw [(List.mem_replicate.mp ht).2]
    trivial

namespace ServerOk

/-- The main thread takes a step of its task. -/
theorem main (h : ServerOk s) (hguard : SlotFree s .main)
    (hstep : taskStep s.sockets s.main = some (k', t')) :
    ServerOk { s with sockets := k', main := t' } := by
  obtain ⟨reported, hreported, hown⟩ := h.owned
  refine ⟨⟨reported, hreported, hown.step hstep ?_ ?_⟩, h.of_worker, fun hphase => ?_⟩
  · intro fd hassign hmem
    have hworkers : fd ∉ holdings Task.slots s.workers := by
      unfold SlotFree at hguard
      simp only [hassign] at hguard
      exact hguard
    obtain ⟨t, ht, hfd⟩ := List.mem_flatMap.mp hmem
    rcases List.mem_append.mp ht with hwait | hwork
    · -- An event or a request is for a descriptor that a slot has.
      obtain ⟨r, rfl⟩ := waiting_ofWorker t hwait
      obtain rfl := List.mem_singleton.mp hfd
      have hserves : Serves s.sockets _ r := hown.ok _ (List.mem_cons_of_mem _ ht)
      exact hserves.1.2 s.main List.mem_cons_self (by rw [hassign]; rfl)
    · exact hworkers (List.mem_flatMap.mpr ⟨t, hwork, hfd⟩)
  · exact fun _ u hu => (h.others reported u hu).fresh
  · rw [(h.at_rest hphase).2] at hstep
    cases hstep

/-- A worker takes a step of its task. -/
theorem worker (h : ServerOk s) {i : Nat} (hi : s.workers[i]? = some t)
    (hstep : taskStep s.sockets t = some (k', t')) :
    ServerOk { s with sockets := k', workers := s.workers.set i t' } := by
  obtain ⟨reported, hreported, hown⟩ := h.owned
  have hworker := h.of_worker t (List.mem_of_getElem? hi)
  obtain ⟨hold, hnew⟩ := set_perm hi t'
  refine ⟨⟨reported, hreported, ?_⟩, fun u hu => ?_, h.at_rest⟩
  · have hfront := hown.perm ((hold.append_left _).trans List.perm_middle)
    have hnext := hfront.step hstep ?_ (fun hfresh => absurd hworker.fresh hfresh)
    · exact hnext.perm ((hnew.append_left _).trans List.perm_middle).symm
    · rintro fd rfl
      exact hworker.elim
  · rcases List.mem_or_eq_of_mem_set hu with hu | rfl
    · exact h.of_worker u hu
    · exact hworker.step hstep

/-- A worker takes a request from the queue. -/
theorem take (h : ServerOk s) {i : Nat} {queue : List Request} (hi : s.workers[i]? = some .idle)
    (hqueue : s.workqueue = r :: queue) :
    ServerOk { s with workqueue := queue, workers := s.workers.set i (.process r) } := by
  obtain ⟨reported, hreported, hown⟩ := h.owned
  obtain ⟨hold, hnew⟩ := set_perm hi (.process r)
  refine ⟨⟨reported, hreported, ?_⟩, fun u hu => ?_, h.at_rest⟩
  · have hdrop := (hown.perm ((hold.append_left _).trans List.perm_middle)).drop rfl rfl rfl
    refine hdrop.perm ?_
    unfold Server.waiting
    rw [hqueue, List.map_cons]
    have hqueued : (s.main :: (reported.map .process ++ .process r :: queue.map .process)).Perm
        (.process r :: s.main :: (reported.map .process ++ queue.map .process)) :=
      (List.perm_middle.cons _).trans (List.Perm.swap _ _ _)
    exact (hqueued.append_right _).trans ((hnew.append_left _).trans List.perm_middle).symm
  · rcases List.mem_or_eq_of_mem_set hu with hu | rfl
    · exact h.of_worker u hu
    · trivial

/-- A worker has read and answered a request. -/
theorem process (h : ServerOk s) {i : Nat} (hi : s.workers[i]? = some (.process r))
    (code : HttpCode) (writeRet : Bool) :
    ServerOk { s with workers := s.workers.set i (.calls r (processOps code writeRet)) } := by
  obtain ⟨reported, hreported, hown⟩ := h.owned
  have harms := processOps_armsLast code writeRet
  obtain ⟨hold, hnew⟩ := set_perm hi (.calls r (processOps code writeRet))
  refine ⟨⟨reported, hreported, ?_⟩, fun u hu => ?_, h.at_rest⟩
  · have hfront := hown.perm ((hold.append_left _).trans List.perm_middle)
    exact (hfront.handle harms.once).perm ((hnew.append_left _).trans List.perm_middle).symm
  · rcases List.mem_or_eq_of_mem_set hu with hu | rfl
    · exact h.of_worker u hu
    · exact harms

/-- The main thread takes an event of a client. -/
theorem takeEvent (h : ServerOk s) {kind : Post.EventKind} {rest : List Event}
    (hmain : s.main = .idle) (hpending : s.pending = .client fd kind :: rest) :
    s.phase = .dispatching ∧ ∃ reported : List Request,
      reported.map Request.fd = rest.filterMap Event.fd? ∧
      Owned s.sockets (.idle :: .process (s.request fd) :: (s.waiting reported ++ s.workers)) := by
  constructor
  · by_contra hphase
    rw [(h.at_rest hphase).1] at hpending
    cases hpending
  obtain ⟨reported, hreported, hown⟩ := h.owned
  have hfd : (Event.client fd kind).fd? = some fd := rfl
  rw [Server.pendingFds, hpending, List.filterMap_cons_some hfd] at hreported
  obtain ⟨r, tail, rfl, hr, htail⟩ := List.map_eq_cons_iff.mp hreported
  rw [hmain] at hown
  have hserves : Serves s.sockets _ r :=
    hown.ok (.process r) (List.mem_cons_of_mem _ List.mem_cons_self)
  have hrequest : s.request fd = r := by
    rw [← hr, Server.request, hserves.2]
  rw [hrequest]
  exact ⟨tail, htail, hown⟩

/-- The main thread has calls to make for an event. -/
theorem handle (h : ServerOk s) {kind : Post.EventKind} {rest : List Event} {ops : List SockOp}
    (hmain : s.main = .idle) (hpending : s.pending = .client fd kind :: rest)
    (honce : ArmsOnce ops) : ServerOk (s.take rest fd ops) := by
  obtain ⟨hphase, reported, hreported, hown⟩ := h.takeEvent hmain hpending
  exact ⟨⟨reported, hreported, (hown.drop rfl rfl rfl).handle honce⟩, h.of_worker,
    fun hne => absurd hphase hne⟩

/-- The main thread appends a request to the queue, or finds it full. -/
theorem append (h : ServerOk s) {kind : Post.EventKind} {rest : List Event} (cfg : Config)
    (hmain : s.main = .idle) (hpending : s.pending = .client fd kind :: rest) :
    ServerOk ({ s with pending := rest }.append cfg fd) := by
  obtain ⟨hphase, reported, hreported, hown⟩ := h.takeEvent hmain hpending
  unfold Server.append
  split_ifs
  · refine ⟨⟨reported, hreported, ?_⟩, h.of_worker, fun hne => absurd hphase hne⟩
    show Owned s.sockets (s.main :: (s.waiting reported ++ s.workers))
    rw [hmain]
    exact (hown.perm (List.Perm.swap _ _ _)).drop rfl rfl rfl
  · refine ⟨⟨reported, hreported, hown.perm ?_⟩, h.of_worker, fun hne => absurd hphase hne⟩
    show List.Perm _ (s.main :: (reported.map .process ++
      (s.workqueue ++ [s.request fd]).map .process ++ s.workers))
    rw [hmain, List.map_append, ← List.append_assoc, List.map_singleton]
    refine List.Perm.cons _ ?_
    exact (List.perm_append_singleton _ _).symm.append_right _

/-- `epoll_wait` returns a batch. -/
theorem epollWait (h : ServerOk s) {events : List Event} (hphase : s.phase = .waiting)
    (hbatch : s.Batch events) :
    ServerOk { s with
      phase := .dispatching
      pending := events
      sockets := s.sockets.report (events.filterMap Event.fd?) } := by
  obtain ⟨hpending, hmain⟩ := h.at_rest (by rw [hphase]; decide)
  obtain ⟨reported, hreported, hown⟩ := h.owned
  rw [Server.pendingFds, hpending, List.filterMap_nil, List.map_eq_nil_iff] at hreported
  subst hreported
  have hfree : ∀ fd ∈ events.filterMap Event.fd?, s.sockets.Armed fd ∧
      fd ∉ holdings Task.slots (s.main :: s.waiting [] ++ s.workers) := by
    intro fd hfd
    obtain ⟨e, he, hefd⟩ := List.mem_filterMap.mp hfd
    have hready := hbatch.reportable e he
    have harmed : s.sockets.Armed fd := by
      rcases e with _ | ⟨g, kind⟩
      · cases hefd
      · cases hefd
        cases kind with
        | hangup =>
          obtain ⟨ev, -, hev⟩ := hready
          exact ⟨ev, hev⟩
        | input => exact ⟨.input, hready⟩
        | output => exact ⟨.output, hready⟩
    refine ⟨harmed, fun hmem => ?_⟩
    obtain ⟨t, ht, hslot⟩ := List.mem_flatMap.mp hmem
    rcases List.mem_cons.mp ht with rfl | hother
    · rw [hmain] at hslot
      cases hslot
    · exact (hown.armed fd harmed).2 t ht hslot ((h.others [] t hother).arms hslot)
  obtain ⟨reqs, hreqs, hnext⟩ := hown.report hbatch.nodup hfree
  refine ⟨⟨reqs, hreqs, hnext.perm ?_⟩, h.of_worker, fun hne => absurd rfl hne⟩
  show List.Perm _ (s.main :: (reqs.map .process ++ s.workqueue.map .process ++ s.workers))
  rw [List.append_assoc]
  exact List.perm_middle

/-- `accept` returns a descriptor that was not open. -/
theorem accept (h : ServerOk s) {rest : List Event} (hmain : s.main = .idle)
    (hpending : s.pending = .listen :: rest) (hclosed : fd ∉ s.sockets.fds)
    (hnew : t' = .assign fd ∨ t' = .refuse fd) :
    ServerOk { s with pending := rest, sockets := s.sockets.accept fd, main := t' } := by
  obtain ⟨reported, hreported, hown⟩ := h.owned
  rw [Server.pendingFds, hpending, List.filterMap_cons_none rfl] at hreported
  rw [hmain] at hown
  refine ⟨⟨reported, hreported, hown.accept hclosed hnew⟩, h.of_worker, fun hphase => ?_⟩
  rw [(h.at_rest hphase).1] at hpending
  cases hpending

/-- The main thread passes over a report of the listening socket. -/
theorem skip (h : ServerOk s) {rest : List Event} (hpending : s.pending = .listen :: rest) :
    ServerOk { s with pending := rest } := by
  obtain ⟨reported, hreported, hown⟩ := h.owned
  rw [Server.pendingFds, hpending, List.filterMap_cons_none rfl] at hreported
  refine ⟨⟨reported, hreported, hown⟩, h.of_worker, fun hphase => ?_⟩
  rw [(h.at_rest hphase).1] at hpending
  cases hpending

end ServerOk

/-- A step keeps the invariant, when `init` finds its slot free. -/
theorem serverStep_ok (h : ServerOk s) (hguard : SlotFree s a)
    (hstep : serverStep cfg s a = some s') : ServerOk s' := by
  cases serverStep_inv hstep with
  | epollWait events hphase hbatch => exact h.epollWait hphase hbatch
  | epollFails hphase =>
    exact ⟨h.owned, h.of_worker, fun _ => h.at_rest (by rw [hphase]; decide)⟩
  | accept fd rest hmain hpending hreserved hclosed =>
    refine h.accept hmain hpending hclosed ?_
    split
    · exact Or.inr rfl
    · exact Or.inl rfl
  | acceptFails rest hmain hpending => exact h.skip hpending
  | hangup fd rest hmain hpending => exact h.handle hmain hpending trivial
  | append fd rest hmain hpending => exact h.append cfg hmain hpending
  | readFails fd rest hmain hpending => exact h.handle hmain hpending trivial
  | write fd rest exit hmain hpending => exact h.handle hmain hpending (writeOps_once exit)
  | endBatch hphase hmain hpending => exact ⟨h.owned, h.of_worker, fun _ => ⟨hpending, hmain⟩⟩
  | main k t htask => exact h.main hguard htask
  | take i r rest hi hqueue => exact h.take hi hqueue
  | process i r code writeRet hi => exact h.process hi code writeRet
  | worker i t k t' hi htask => exact h.worker hi htask

/-! ## The life of a connection -/

/-- No thread is in `init` or `close_conn`. -/
def Settled (s : Server) : Prop := s.main.Quiet ∧ ∀ t ∈ s.workers, t.Quiet

instance (s : Server) : Decidable (Settled s) := inferInstanceAs (Decidable (_ ∧ _))

/-- What the slots and the count say of the open descriptors, and what the calls reach. -/
structure LifecycleOk (s : Server) : Prop where
  /-- Every open client descriptor has its slot. -/
  slots : Settled s → ∀ fd ∈ s.sockets.fds, s.sockets.sockfd fd = some fd
  /-- `m_user_count` is the number of open client descriptors. -/
  count : Settled s → s.sockets.userCount = s.sockets.fds.keys.length
  /-- No call reaches a descriptor that is open for another connection. -/
  calls : ∀ c ∈ s.sockets.calls, c.owner = c.conn

theorem Task.Quiet.facts (h : t.Quiet) : t.fresh = none ∧ t.entering = 0 ∧ t.leaving = 0 := by
  cases t with
  | idle => exact ⟨rfl, rfl, rfl⟩
  | process r => exact ⟨rfl, rfl, rfl⟩
  | calls r ops => exact ⟨rfl, rfl, rfl⟩
  | _ => exact h.elim

theorem ServerOk.lifecycleOk (h : ServerOk s) : LifecycleOk s := by
  obtain ⟨reported, -, hown⟩ := h.owned
  have hquiet : Settled s → ∀ t ∈ s.main :: s.waiting reported ++ s.workers, t.Quiet := by
    rintro ⟨hmain, hworkers⟩ t ht
    rcases List.mem_append.mp ht with ht | ht
    · rcases List.mem_cons.mp ht with rfl | ht
      · exact hmain
      · obtain ⟨r, rfl⟩ := waiting_ofWorker t ht
        trivial
    · exact hworkers t ht
  refine ⟨fun hset fd hfd => hown.sockfd fd ⟨hfd, fun t ht => ?_⟩, fun hset => ?_, hown.calls⟩
  · rw [(hquiet hset t ht).facts.1]
    exact nofun
  · have hcount := hown.count
    rw [total_eq_zero.mpr fun t ht => (hquiet hset t ht).facts.2.1,
      total_eq_zero.mpr fun t ht => (hquiet hset t ht).facts.2.2] at hcount
    simpa using hcount

/-- A run keeps the slots, the count and the calls right in every state, when `init` stores
no descriptor in a slot that a worker is still in `process` for. -/
theorem always_lifecycleOk (cfg : Config) (sockfd : Nat → Option Nat) (as : List ServerAction)
    (hguard : AllSteps (serverStep cfg) SlotFree (startServer cfg sockfd) as) :
    Always (serverStep cfg) LifecycleOk (startServer cfg sockfd) as :=
  always_of_invariant ServerOk SlotFree (fun _ _ _ h hg hstep => serverStep_ok h hg hstep)
    (fun _ h => h.lifecycleOk) (startServer_ok cfg sockfd) hguard

/-- What `main` chooses, with `listenfd` and `epollfd` behind the standard descriptors. -/
def mainConfig : Config := ⟨[0, 1, 2, 3, 4], 8, 10000⟩

/-- A connection gets the descriptor 5. -/
def connect : List ServerAction :=
  [.epollWait [.listen], .accept 5, .main, .main, .main, .endBatch]

/-- A worker gets the request of the connection, and `process_write` fails. -/
def failedRequest : List ServerAction :=
  [.epollWait [.client 5 .input], .read true, .endBatch, .take 0, .process 0 .fileRequest false]

/-- The next connection comes behind the last step of the worker. -/
theorem always_lifecycleOk_reuse :
    Always (serverStep mainConfig) LifecycleOk (startServer mainConfig fun _ => none)
      (connect ++ failedRequest ++ List.replicate 6 (.worker 0) ++ connect) :=
  always_lifecycleOk mainConfig _ _ (by decide)

/-- The next connection comes behind `removefd`, and its slot is emptied behind `init`. -/
theorem not_always_lifecycleOk_race :
    ¬ Always (serverStep mainConfig) LifecycleOk (startServer mainConfig fun _ => none)
      (connect ++ failedRequest ++ List.replicate 2 (.worker 0) ++ connect ++
        List.replicate 4 (.worker 0)) := by
  intro h
  obtain ⟨s, ⟨hset, hopen, hslot⟩, hok⟩ :=
    h.exists_last (fun s : Server => Settled s ∧ 5 ∈ s.sockets.fds.keys ∧
      s.sockets.sockfd 5 = none) (by decide)
  have hslot' := hok.slots hset 5 (AList.mem_keys.mpr hopen)
  rw [hslot] at hslot'
  cases hslot'

end EasyWebServer.Get
