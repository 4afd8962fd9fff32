import Mathlib.Data.List.Nodup

/-!
# Client sessions of the server

`Server::run` accepts connections in a loop while `running_` is set, registers each
socket in `client_sockets_` (`add_client`) and hands `handle_client(sock)` to the
scheduler.  A session ends in `remove_client(sock)`, which closes the socket only if it is
still registered and erases it, under `client_mutex_`.  `Server::stop`, called by the
signal handler and by the destructor, clears `running_`, closes the listening socket, and
under `client_mutex_` closes every registered socket and clears the registry.

The model starts where `run` has set `running_` after a successful `listen`.  Its state is
the code's (`running_`, `server_fd_ >= 0`, `client_sockets_`, the accept loop's position
and the socket it holds, the position of each call of `stop`), with the descriptors the
operating system has handed out: every connection accepted so far, its descriptor, whether
that descriptor is still open, and how far its `handle_client` task has got.  A closed
descriptor may be handed out again by a later `accept`.  Each critical section on
`client_mutex_` is one step, and so is each other read or write of shared state; a session's
receive loop may end at any time (the peer closes, a read fails, a goodbye, `running_`
cleared).

Along every interleaving, with any number of `stop` calls at any times:
* every close of a client socket closes the one open connection holding the descriptor, and
  a session's or the accept loop's close closes its own connection (`closes_sound`);
* while a session serves a connection, no other open connection holds its descriptor, so
  its reads and writes reach its own peer (`serving_descriptor_private`);
* `client_sockets_` holds no descriptor twice, and each of them is held by exactly one open
  connection (`registry_sound`);
* once the accept loop has left and every session and every `stop` call has returned, every
  socket is closed and the registry is empty (`shutdown_closes_all`).

The listening socket is closed at most once when no `stop` call starts while another is
running; two overlapping calls can both pass the `running_` test and both close it
(`listener_closed_once`).
-/

namespace AevumDb

namespace Sessions

inductive Task where
  /-- Not yet handed to the scheduler. -/
  | unqueued
  /-- Enqueued: waiting for a worker, or in its receive loop. -/
  | serving
  /-- Returned from `remove_client`. -/
  | finished
  deriving DecidableEq, Repr

structure Conn where
  fd : Nat
  isOpen : Bool
  task : Task
  deriving DecidableEq, Repr

inductive Acceptor where
  /-- At `while (running_)`. -/
  | top
  /-- Blocked in `accept`. -/
  | accepting
  /-- `accept` returned connection `c`: about to test `running_`. -/
  | accepted (c : Nat)
  /-- About to call `add_client(sock)`. -/
  | admitted (c : Nat)
  /-- About to enqueue `handle_client(sock)`. -/
  | registered (c : Nat)
  /-- Out of the loop. -/
  | exited
  deriving DecidableEq, Repr

inductive Stopper where
  /-- About to test `running_`. -/
  | entered
  /-- About to clear `running_`. -/
  | passed
  /-- About to test `server_fd_ >= 0`. -/
  | cleared
  /-- About to shut down and close `server_fd_`. -/
  | closing
  /-- About to set `server_fd_ = -1`. -/
  | closed
  /-- About to close the registered sockets under `client_mutex_`. -/
  | locking
  /-- Returned at the `running_` test. -/
  | returned
  /-- Returned after closing the registered sockets. -/
  | finished
  deriving DecidableEq, Repr

def Stopper.done : Stopper -> Bool
  | .returned | .finished => true
  | _ => false

def Stopper.hasCleared : Stopper -> Bool
  | .cleared | .closing | .closed | .locking | .finished => true
  | _ => false

def Stopper.hasClosed : Stopper -> Bool
  | .closed | .locking | .finished => true
  | _ => false

def Stopper.inFlight : Stopper -> Bool
  | .passed | .cleared | .closing => true
  | _ => false

def Acceptor.sock : Acceptor -> Option Nat
  | .accepted c | .admitted c | .registered c => some c
  | _ => none

structure State where
  /-- `running_`. -/
  running : Bool
  /-- `server_fd_ >= 0`: it still names the listening socket. -/
  serverFd : Bool
  /-- The listening socket is open. -/
  listening : Bool
  /-- `client_sockets_`. -/
  clients : List Nat
  /-- Every connection `accept` returned, numbered in the order it returned them. -/
  conns : List Conn
  acceptor : Acceptor
  /-- The calls of `stop` made so far. -/
  stops : List Stopper
  deriving DecidableEq, Repr

def init : State :=
  { running := true, serverFd := true, listening := true, clients := [], conns := [],
    acceptor := .top, stops := [] }

def Conn.close (fd : Nat) (x : Conn) : Conn := { x with isOpen := x.isOpen && decide (x.fd ≠ fd) }

def closeEach (fds : List Nat) (conns : List Conn) : List Conn :=
  fds.foldl (fun conns fd => conns.map (Conn.close fd)) conns

inductive Event where
  | quiet
  /-- `close` on the socket of connection `c`, which has descriptor `fd`, by its session's
  `remove_client` or by `run`. -/
  | closeConn (c fd : Nat)
  /-- `stop` closes each descriptor of `fds`, the registered ones. -/
  | closeRegistered (fds : List Nat)
  /-- `stop` closes `server_fd_` while it names the listening socket. -/
  | closeListener
  deriving DecidableEq, Repr

/-- One step of the accept loop, a session or a `stop` call.  `overlap` says whether a `stop`
call may start while another is running. -/
inductive Step (overlap : Bool) : State -> Event -> State -> Prop
  /-- `while (running_)` enters the loop, and the thread blocks in `accept`. -/
  | runLoop {s : State} : s.acceptor = .top -> s.running = true ->
      Step overlap s .quiet { s with acceptor := .accepting }
  /-- `while (running_)` leaves the loop. -/
  | runLeave {s : State} : s.acceptor = .top -> s.running = false ->
      Step overlap s .quiet { s with acceptor := .exited }
  /-- `accept` returns a new connection, on a descriptor no open connection holds. -/
  | runAccept {s : State} {fd : Nat} : s.acceptor = .accepting -> s.listening = true ->
      (∀ x ∈ s.conns, x.isOpen = true -> x.fd ≠ fd) ->
      Step overlap s .quiet
        { s with conns := s.conns ++ [⟨fd, true, .unqueued⟩], acceptor := .accepted s.conns.length }
  /-- `accept` fails: the loop goes on while `running_` is set, and breaks otherwise. -/
  | runAcceptFail {s : State} : s.acceptor = .accepting ->
      Step overlap s .quiet { s with acceptor := if s.running then .top else .exited }
  /-- `if (!running_) { close(sock); break; }`. -/
  | runRefuse {s : State} {c : Nat} {x : Conn} : s.acceptor = .accepted c -> s.running = false ->
      s.conns[c]? = some x ->
      Step overlap s (.closeConn c x.fd)
        { s with conns := s.conns.map (Conn.close x.fd), acceptor := .exited }
  /-- The `running_` test after `accept` passes. -/
  | runAdmit {s : State} {c : Nat} : s.acceptor = .accepted c -> s.running = true ->
      Step overlap s .quiet { s with acceptor := .admitted c }
  /-- `add_client(sock)`. -/
  | addClient {s : State} {c : Nat} {x : Conn} : s.acceptor = .admitted c -> s.conns[c]? = some x ->
      Step overlap s .quiet { s with clients := s.clients ++ [x.fd], acceptor := .registered c }
  /-- `scheduler_.enqueue` of `handle_client(sock)`. -/
  | runEnqueue {s : State} {c : Nat} {x : Conn} : s.acceptor = .registered c ->
      s.conns[c]? = some x ->
      Step overlap s .quiet { s with conns := s.conns.set c { x with task := .serving }, acceptor := .top }
  /-- The session of connection `c` ends, and `remove_client(sock)` finds `sock` registered:
  it closes it and erases it. -/
  | removeClient {s : State} {c : Nat} {x : Conn} : s.conns[c]? = some x -> x.task = .serving ->
      x.fd ∈ s.clients ->
      Step overlap s (.closeConn c x.fd)
        { s with conns := (s.conns.map (Conn.close x.fd)).set c { x with isOpen := false, task := .finished },
                 clients := s.clients.erase x.fd }
  /-- The session of connection `c` ends, and `remove_client(sock)` does not find `sock`. -/
  | removeClientAbsent {s : State} {c : Nat} {x : Conn} : s.conns[c]? = some x ->
      x.task = .serving -> x.fd ∉ s.clients ->
      Step overlap s .quiet { s with conns := s.conns.set c { x with task := .finished } }
  /-- A signal handler, or the destructor, calls `stop`. -/
  | stopCall {s : State} : (overlap = true ∨ ∀ p ∈ s.stops, p.done = true) ->
      Step overlap s .quiet { s with stops := s.stops ++ [.entered] }
  /-- `if (!running_) return;`. -/
  | stopTest {s : State} {i : Nat} : s.stops[i]? = some .entered ->
      Step overlap s .quiet { s with stops := s.stops.set i (if s.running then .passed else .returned) }
  /-- `running_ = false`. -/
  | stopClear {s : State} {i : Nat} : s.stops[i]? = some .passed ->
      Step overlap s .quiet { s with running := false, stops := s.stops.set i .cleared }
  /-- `if (server_fd_ >= 0)`. -/
  | stopTestFd {s : State} {i : Nat} : s.stops[i]? = some .cleared ->
      Step overlap s .quiet
        { s with stops := s.stops.set i (if s.serverFd then .closing else .locking) }
  /-- `shutdown(server_fd_, SHUT_RDWR); close(server_fd_)` with `server_fd_` still the
  listening socket. -/
  | stopCloseListener {s : State} {i : Nat} : s.stops[i]? = some .closing -> s.serverFd = true ->
      Step overlap s .closeListener { s with listening := false, stops := s.stops.set i .closed }
  /-- The same calls after another `stop` has set `server_fd_ = -1`: they fail and close
  nothing. -/
  | stopCloseInvalid {s : State} {i : Nat} : s.stops[i]? = some .closing -> s.serverFd = false ->
      Step overlap s .quiet { s with stops := s.stops.set i .closed }
  /-- `server_fd_ = -1`. -/
  | stopReset {s : State} {i : Nat} : s.stops[i]? = some .closed ->
      Step overlap s .quiet { s with serverFd := false, stops := s.stops.set i .locking }
  /-- Under `client_mutex_`: `close` on every registered socket, then `clear()`. -/
  | stopCloseClients {s : State} {i : Nat} : s.stops[i]? = some .locking ->
      Step overlap s (.closeRegistered s.clients)
        { s with conns := closeEach s.clients s.conns, clients := [], stops := s.stops.set i .finished }

inductive Reachable (overlap : Bool) : State -> Prop
  | init : Reachable overlap init
  | step {s s' : State} {e : Event} : Reachable overlap s -> Step overlap s e s' -> Reachable overlap s'

/-!
## Descriptors held by open connections
-/

def Holds (conns : List Conn) (i fd : Nat) : Prop :=
  ∃ x, conns[i]? = some x ∧ x.isOpen = true ∧ x.fd = fd

def holders (conns : List Conn) (fd : Nat) : List Nat :=
  (List.range conns.length).filter fun i => conns[i]?.any fun x => x.isOpen && x.fd == fd

theorem mem_holders {conns : List Conn} {fd i : Nat} : i ∈ holders conns fd ↔ Holds conns i fd := by
  unfold holders Holds
  rw [List.mem_filter, List.mem_range]
  cases hx : conns[i]? with
  | none => simp [List.getElem?_eq_none_iff.mp hx]
  | some x =>
      simp only [Option.any, Bool.and_eq_true, beq_iff_eq, Option.some.injEq, exists_eq_left']
      exact ⟨fun h => h.2, fun h => ⟨(List.getElem?_eq_some_iff.mp hx).1, h⟩⟩

theorem holders_eq_singleton {conns : List Conn} {fd c : Nat} (hc : Holds conns c fd)
    (hu : ∀ j, Holds conns j fd -> j = c) : holders conns fd = [c] := by
  obtain ⟨n, hn⟩ := List.subset_singleton_iff.mp fun j hj =>
    List.mem_singleton.mpr (hu j (mem_holders.mp hj))
  have hnd : (holders conns fd).Nodup := (List.nodup_range _).filter _
  have hmem : c ∈ holders conns fd := mem_holders.mpr hc
  rw [hn] at hnd hmem ⊢
  rcases n with _ | _ | n
  · simp at hmem
  · rfl
  · simp at hnd

@[simp] theorem Conn.close_fd (fd : Nat) (x : Conn) : (x.close fd).fd = x.fd := rfl

@[simp] theorem Conn.close_task (fd : Nat) (x : Conn) : (x.close fd).task = x.task := rfl

@[simp] theorem Conn.close_isOpen (fd : Nat) (x : Conn) :
    (x.close fd).isOpen = (x.isOpen && decide (x.fd ≠ fd)) := rfl

theorem getElem?_closeEach (fds : List Nat) (conns : List Conn) (i : Nat) :
    (closeEach fds conns)[i]? =
      conns[i]?.map fun x => { x with isOpen := x.isOpen && decide (x.fd ∉ fds) } := by
  induction fds generalizing conns with
  | nil =>
      simp only [closeEach, List.foldl_nil, List.not_mem_nil, not_false_eq_true, decide_True,
        Bool.and_true]
      cases conns[i]? <;> rfl
  | cons fd fds ih =>
      rw [closeEach, List.foldl_cons, ← closeEach, ih, List.getElem?_map, Option.map_map]
      congr 1
      funext x
      simp only [Function.comp, Conn.close, List.mem_cons, not_or, Bool.decide_and, Bool.and_assoc]

theorem holds_closeEach {fds : List Nat} {conns : List Conn} {i k : Nat} :
    Holds (closeEach fds conns) i k ↔ Holds conns i k ∧ k ∉ fds := by
  simp only [Holds, getElem?_closeEach, Option.map_eq_some']
  constructor
  · rintro ⟨_, ⟨x, hx, rfl⟩, ho, rfl⟩
    simp only [Bool.and_eq_true, decide_eq_true_eq] at ho
    exact ⟨⟨x, hx, ho.1, rfl⟩, ho.2⟩
  · rintro ⟨⟨x, hx, ho, rfl⟩, hk⟩
    exact ⟨_, ⟨x, hx, rfl⟩, by simp [ho, hk], rfl⟩

theorem holds_map_close {conns : List Conn} {fd i k : Nat} :
    Holds (conns.map (Conn.close fd)) i k ↔ Holds conns i k ∧ k ≠ fd := by
  rw [show conns.map (Conn.close fd) = closeEach [fd] conns from rfl, holds_closeEach,
    List.mem_singleton]

theorem getElem?_concat_eq_some {α : Type} {l : List α} {a x : α} {i : Nat} :
    (l ++ [a])[i]? = some x ↔ l[i]? = some x ∨ (i = l.length ∧ x = a) := by
  rcases Nat.lt_or_ge i l.length with hi | hi
  · simp [List.getElem?_append_left hi, hi.ne]
  · rw [List.getElem?_append_right hi, List.getElem?_eq_none_iff.mpr hi]
    rcases Nat.eq_or_lt_of_le hi with rfl | hlt
    · simp [eq_comm]
    · have hnone : [a][i - l.length]? = none := List.getElem?_eq_none_iff.mpr (by simp; omega)
      simp [hnone, hlt.ne']

theorem holds_concat {l : List Conn} {a : Conn} {i k : Nat} :
    Holds (l ++ [a]) i k ↔ Holds l i k ∨ (i = l.length ∧ a.isOpen = true ∧ a.fd = k) := by
  simp only [Holds, getElem?_concat_eq_some]
  constructor
  · rintro ⟨x, hx | ⟨rfl, rfl⟩, ho, hk⟩
    · exact Or.inl ⟨x, hx, ho, hk⟩
    · exact Or.inr ⟨rfl, ho, hk⟩
  · rintro (⟨x, hx, ho, hk⟩ | ⟨rfl, ho, hk⟩)
    · exact ⟨x, Or.inl hx, ho, hk⟩
    · exact ⟨a, Or.inr ⟨rfl, rfl⟩, ho, hk⟩

theorem getElem?_set_of {α : Type} {l : List α} {c i : Nat} {x a : α} (hc : l[c]? = some x) :
    (l.set c a)[i]? = if i = c then some a else l[i]? := by
  rw [List.getElem?_set]
  by_cases h : i = c
  · subst h
    rw [if_pos rfl, if_pos rfl, if_pos (List.getElem?_eq_some_iff.mp hc).1]
  · rw [if_neg (Ne.symm h), if_neg h]

theorem getElem?_set_eq_some {α : Type} {l : List α} {c i : Nat} {y a z : α} (hc : l[c]? = some y) :
    (l.set c a)[i]? = some z ↔ (i = c ∧ z = a) ∨ (i ≠ c ∧ l[i]? = some z) := by
  rw [getElem?_set_of hc]
  by_cases h : i = c <;> simp [h, eq_comm]

theorem holds_set {l : List Conn} {c i k : Nat} {x a : Conn} (hc : l[c]? = some x) :
    Holds (l.set c a) i k ↔ (i ≠ c ∧ Holds l i k) ∨ (i = c ∧ a.isOpen = true ∧ a.fd = k) := by
  simp only [Holds, getElem?_set_of hc]
  by_cases h : i = c <;> simp [h]

theorem holds_set_task {l : List Conn} {c i k : Nat} {x : Conn} (hc : l[c]? = some x) (t : Task) :
    Holds (l.set c { x with task := t }) i k ↔ Holds l i k := by
  rw [holds_set hc]
  by_cases h : i = c
  · subst h
    simp only [Holds, hc, Option.some.injEq, exists_eq_left', ne_eq, not_true_eq_false, false_and,
      true_and, false_or]
  · simp [h]

theorem mem_set_of_getElem? {α : Type} {l : List α} {i : Nat} {p : α} (hi : l[i]? = some p) (a : α) :
    a ∈ l.set i a :=
  List.getElem?_mem (List.getElem?_set_self (List.getElem?_eq_some_iff.mp hi).1)

end Sessions

end AevumDb
