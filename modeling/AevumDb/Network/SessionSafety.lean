import AevumDb.Network.SessionInvariant

/-!
# What the server's sessions guarantee

The safety of the registry protocol along every interleaving, from the invariant: the closes
of client sockets, the privacy of a session's descriptor, the registry itself, the state at
shutdown, and the closes of the listening socket.
-/

namespace AevumDb

namespace Sessions

variable {overlap : Bool} {s s' : State} {e : Event}

def Event.ClientSound (s : State) : Event -> Prop
  | .closeConn c fd => holders s.conns fd = [c]
  | .closeRegistered fds => fds.Nodup ∧ ∀ fd ∈ fds, (holders s.conns fd).length = 1
  | _ => True

namespace ConnInv

variable {s : State}

theorem holders_of_holds (h : ConnInv s) {i fd : Nat} (hi : Holds s.conns i fd) :
    holders s.conns fd = [i] :=
  holders_eq_singleton hi fun j hj => h.unique j i fd hj hi

theorem registry (h : ConnInv s) :
    s.clients.Nodup ∧ ∀ fd ∈ s.clients, (holders s.conns fd).length = 1 :=
  ⟨h.nodup, fun fd hfd => by
    obtain ⟨i, hi⟩ := h.registered fd hfd
    rw [h.holders_of_holds hi]
    rfl⟩

end ConnInv

/-- Along every interleaving, each close of client sockets closes the one open connection
holding each descriptor it closes: a session's `remove_client` and the accept loop's close at
shutdown close their own connection, and `stop` closes each registered connection once.  No
close reaches a descriptor that is closed, or that `accept` has handed to another
connection since. -/
theorem closes_sound (h : Reachable overlap s) (hs : Step overlap s e s') : e.ClientSound s := by
  have hc := h.inv.conn
  cases hs with
  | runRefuse ha _ hx =>
      exact hc.holders_of_holds ⟨_, hx, (hc.pending (by rw [ha]; rfl) (by rw [ha]; simp) hx).2.1, rfl⟩
  | removeClient hx ht hm =>
      exact hc.holders_of_holds ⟨_, hx, hc.open_of_registered hx (by rw [ht]; simp) hm, rfl⟩
  | stopCloseClients _ => exact hc.registry
  | _ => trivial

theorem reachable_one_session :
    Reachable false
      { running := true, serverFd := true, listening := true, clients := [5],
        conns := [⟨5, true, .serving⟩], acceptor := .top, stops := [] } :=
by
  have h1 := (Reachable.init : Reachable false init).step (.runLoop rfl rfl)
  have h2 := h1.step (@Step.runAccept false _ 5 rfl rfl fun x hx => absurd hx (List.not_mem_nil x))
  have h3 := h2.step (.runAdmit (c := 0) rfl rfl)
  have h4 := h3.step (.addClient (c := 0) rfl rfl)
  have h5 := h4.step (.runEnqueue (c := 0) rfl rfl)
  exact h5

theorem remove_client_closes_own_socket : holders [⟨5, true, .serving⟩] 5 = [0] :=
  closes_sound reachable_one_session (.removeClient (c := 0) rfl rfl (List.mem_singleton_self 5))

/-- While a session serves connection `i`, no other open connection holds its descriptor: the
session's `recv` and `send` reach its own peer, or a descriptor `stop` has closed and no
`accept` hands out again. -/
theorem serving_descriptor_private (h : Reachable overlap s) {i : Nat} {x : Conn}
    (hx : s.conns[i]? = some x) (ht : x.task = .serving) : holders s.conns x.fd ⊆ [i] := by
  have hc := h.inv.conn
  intro j hj
  rw [mem_holders] at hj
  cases ho : x.isOpen
  · exact absurd hj ((hc.stale i x hx ho (by rw [ht]; simp)).1 j)
  · exact List.mem_singleton.mpr (hc.unique j i x.fd hj ⟨x, hx, ho, rfl⟩)

theorem one_session_descriptor_private : holders [⟨5, true, .serving⟩] 5 ⊆ [0] :=
  serving_descriptor_private reachable_one_session (i := 0) rfl rfl

/-- Along every interleaving, `client_sockets_` holds no descriptor twice, and each of its
descriptors is held by exactly one open connection. -/
theorem registry_sound (h : Reachable overlap s) :
    s.clients.Nodup ∧ ∀ fd ∈ s.clients, (holders s.conns fd).length = 1 :=
  h.inv.conn.registry

theorem one_session_registry : [5].Nodup ∧ ∀ fd ∈ [5], (holders [⟨5, true, .serving⟩] fd).length = 1 :=
  registry_sound reachable_one_session

theorem Stopper.hasClosed_of_done {p : Stopper} (hc : p.hasCleared = true) (hd : p.done = true) :
    p.hasClosed = true := by
  cases p <;> simp_all [Stopper.hasCleared, Stopper.done, Stopper.hasClosed]

/-- Once the accept loop has left, every `stop` call has returned and no session is still
serving, every socket the server opened is closed: the listening socket and every
connection, and `client_sockets_` is empty. -/
theorem shutdown_closes_all (h : Reachable overlap s) (ha : s.acceptor = .exited)
    (hstops : ∀ p ∈ s.stops, p.done = true) (hserving : ∀ x ∈ s.conns, x.task ≠ .serving) :
    s.listening = false ∧ s.clients = [] ∧ ∀ x ∈ s.conns, x.isOpen = false := by
  obtain ⟨hc, hst⟩ := h.inv
  have hclosed : ∀ x ∈ s.conns, x.isOpen = false := by
    intro x hx
    obtain ⟨i, hi⟩ := List.mem_iff_getElem?.mp hx
    cases ht : x.task with
    | unqueued =>
        cases ho : x.isOpen
        · rfl
        · have hsock := hc.unqueued i x hi ho ht
          rw [ha] at hsock
          cases hsock
    | serving => exact absurd ht (hserving x hx)
    | finished => exact hc.finished i x hi ht
  refine ⟨?_, List.eq_nil_iff_forall_not_mem.mpr fun fd hfd => ?_, hclosed⟩
  · obtain ⟨p, hp, hcl⟩ := hst.stopped (hst.exited ha)
    exact hst.closed p hp (Stopper.hasClosed_of_done hcl (hstops p hp))
  · obtain ⟨i, x, hx, ho, -⟩ := hc.registered fd hfd
    rw [hclosed x (List.getElem?_mem hx)] at ho
    cases ho

theorem one_session_shutdown : ∃ s, Reachable false s ∧ s.acceptor = .exited ∧ s.conns ≠ [] ∧
    s.listening = false ∧ s.clients = [] ∧ ∀ x ∈ s.conns, x.isOpen = false := by
  have h1 := reachable_one_session.step (.stopCall (Or.inr fun _ h => absurd h (List.not_mem_nil _)))
  have h2 := h1.step (.stopTest (i := 0) rfl)
  have h3 := h2.step (.stopClear (i := 0) rfl)
  have h4 := h3.step (.stopTestFd (i := 0) rfl)
  have h5 := h4.step (.stopCloseListener (i := 0) rfl rfl)
  have h6 := h5.step (.stopReset (i := 0) rfl)
  have h7 := h6.step (.stopCloseClients (i := 0) rfl)
  have h8 := h7.step (.removeClientAbsent (c := 0) rfl rfl (List.not_mem_nil 5))
  have h9 := h8.step (.runLeave rfl rfl)
  exact ⟨_, h9, rfl, by decide, shutdown_closes_all h9 rfl (by decide) (by decide)⟩

/-- When no `stop` call starts while another is running, every close of the listening
socket finds it open.  Two overlapping calls, from two signals handled on two threads, can
both pass `if (!running_) return;` and both reach `close(server_fd_)` before either sets it to
`-1`: the second close is of a descriptor already closed, which by then may name a file
another thread has opened. -/
theorem listener_closed_once :
    (∀ s e s', Reachable false s -> Step false s e s' -> e = .closeListener -> s.listening = true) ∧
    ∃ s s', Reachable true s ∧ Step true s .closeListener s' ∧ s.listening = false := by
  refine ⟨fun s e s' h hs he => ?_, ?_⟩
  · cases hs with
    | stopCloseListener hi _ => exact (h.inv.stop.inFlight rfl .closing (List.getElem?_mem hi) rfl).1
    | _ => cases he
  · have h1 := (Reachable.init : Reachable true init).step (.stopCall (Or.inl rfl))
    have h2 := h1.step (.stopCall (Or.inl rfl))
    have h3 := h2.step (.stopTest (i := 0) rfl)
    have h4 := h3.step (.stopTest (i := 1) rfl)
    have h5 := h4.step (.stopClear (i := 0) rfl)
    have h6 := h5.step (.stopClear (i := 1) rfl)
    have h7 := h6.step (.stopTestFd (i := 0) rfl)
    have h8 := h7.step (.stopTestFd (i := 1) rfl)
    have h9 := h8.step (.stopCloseListener (i := 0) rfl rfl)
    exact ⟨_, _, h9, .stopCloseListener (i := 1) rfl rfl, rfl⟩

end Sessions

end AevumDb
