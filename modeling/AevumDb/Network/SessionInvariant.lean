import AevumDb.Network.Sessions

/-!
# The invariant of the server's sessions

Two structures hold of every state the sessions reach.  `ConnInv` relates the connections,
`client_sockets_` and the accept loop: open connections hold distinct descriptors, the
registry lists open ones, the socket the accept loop holds is open and unregistered until
`add_client`, and a connection closed before its session finished (by a `stop` call, or by
the accept loop at shutdown) has a descriptor no open connection holds and no `accept` will
hand out again.  `StopInv` relates `running_`, `server_fd_` and the `stop` calls.  One lemma
per step keeps each, and `Reachable.inv` carries them along every interleaving.
-/

namespace AevumDb

namespace Sessions

structure ConnInv (s : State) : Prop where
  /-- No two open connections hold one descriptor. -/
  unique : ∀ i j fd, Holds s.conns i fd -> Holds s.conns j fd -> i = j
  nodup : s.clients.Nodup
  /-- A registered descriptor is held by an open connection. -/
  registered : ∀ fd ∈ s.clients, ∃ i, Holds s.conns i fd
  /-- An open connection whose session is enqueued, or about to be, is registered. -/
  serving : ∀ (i : Nat) (x : Conn), s.conns[i]? = some x -> x.isOpen = true ->
    (x.task = .serving ∨ s.acceptor = .registered i) -> x.fd ∈ s.clients
  /-- An open connection with no task is the one the accept loop holds. -/
  unqueued : ∀ (i : Nat) (x : Conn), s.conns[i]? = some x -> x.isOpen = true -> x.task = .unqueued ->
    s.acceptor.sock = some i
  /-- The connection the accept loop holds has no task yet, and is open and unregistered
  until `add_client`. -/
  held : ∀ i, s.acceptor.sock = some i -> ∃ x, s.conns[i]? = some x ∧ x.task = .unqueued ∧
    (s.acceptor ≠ .registered i -> x.isOpen = true ∧ x.fd ∉ s.clients)
  finished : ∀ (i : Nat) (x : Conn), s.conns[i]? = some x -> x.task = .finished -> x.isOpen = false
  /-- A connection closed before its session finished was closed by a `stop` call or by the
  accept loop at shutdown: no open connection holds its descriptor, and no `accept` can
  hand the descriptor out again. -/
  stale : ∀ (i : Nat) (x : Conn), s.conns[i]? = some x -> x.isOpen = false -> x.task ≠ .finished ->
    (∀ j, ¬ Holds s.conns j x.fd) ∧ (s.acceptor = .exited ∨ s.listening = false)

structure StopInv (overlap : Bool) (s : State) : Prop where
  running : s.running = true -> s.listening = true ∧ s.serverFd = true
  serverFd : s.serverFd = false -> s.listening = false
  cleared : ∀ p : Stopper, p ∈ s.stops -> p.hasCleared = true -> s.running = false
  closed : ∀ p : Stopper, p ∈ s.stops -> p.hasClosed = true -> s.listening = false
  stopped : s.running = false -> ∃ p : Stopper, p ∈ s.stops ∧ p.hasCleared = true
  exited : s.acceptor = .exited -> s.running = false
  /-- Without overlapping calls, at most one call is running. -/
  single : overlap = false -> ∀ (i j : Nat) (p q : Stopper), s.stops[i]? = some p -> s.stops[j]? = some q ->
    p.done = false -> q.done = false -> i = j
  /-- Without overlapping calls, the listening socket is open until the running call closes
  it. -/
  inFlight : overlap = false -> ∀ p : Stopper, p ∈ s.stops -> p.inFlight = true ->
    s.listening = true ∧ s.serverFd = true

structure Inv (overlap : Bool) (s : State) : Prop where
  conn : ConnInv s
  stop : StopInv overlap s

namespace ConnInv

variable {s : State}

theorem congr (h : ConnInv s) {s' : State} (hc : s'.conns = s.conns) (hcl : s'.clients = s.clients)
    (ha : s'.acceptor = s.acceptor) (hl : s'.listening = s.listening) : ConnInv s' := by
  obtain ⟨r, f, l, cl, cn, a, st⟩ := s'
  simp only at hc hcl ha hl
  subst hc hcl ha hl
  exact ⟨h.unique, h.nodup, h.registered, h.serving, h.unqueued, h.held, h.finished, h.stale⟩

theorem idle (h : ConnInv s) (hs : s.acceptor.sock = none) (hexit : s.acceptor ≠ .exited)
    (a : Acceptor) (ha : a.sock = none) : ConnInv { s with acceptor := a } where
  unique := h.unique
  nodup := h.nodup
  registered := h.registered
  serving i x hx ho ht := h.serving i x hx ho (ht.imp_right fun e => by subst e; simp [Acceptor.sock] at ha)
  unqueued i x hx ho ht := by simpa [hs] using h.unqueued i x hx ho ht
  held i hi := by simp [ha] at hi
  finished := h.finished
  stale i x hx ho ht := ⟨(h.stale i x hx ho ht).1, Or.inr ((h.stale i x hx ho ht).2.resolve_left hexit)⟩

theorem unlisten (h : ConnInv s) (stops : List Stopper) :
    ConnInv { s with listening := false, stops := stops } :=
  { h with stale := fun i x hx ho ht => ⟨(h.stale i x hx ho ht).1, Or.inr rfl⟩ }

theorem runAccept (h : ConnInv s) (ha : s.acceptor = .accepting) (hl : s.listening = true)
    {fd : Nat} (hfresh : ∀ x ∈ s.conns, x.isOpen = true -> x.fd ≠ fd) :
    ConnInv { s with conns := s.conns ++ [⟨fd, true, .unqueued⟩],
                     acceptor := .accepted s.conns.length } := by
  have hne : ∀ i k, Holds s.conns i k -> k ≠ fd := fun i k ⟨x, hx, ho, hk⟩ =>
    hk ▸ hfresh x (List.getElem?_mem hx) ho
  refine ⟨fun i j k hi hj => ?_, h.nodup, fun k hk => ?_, fun i x hx ho ht => ?_,
    fun i x hx ho ht => ?_, fun i hi => ?_, fun i x hx ht => ?_, fun i x hx ho ht => ?_⟩
  · rcases holds_concat.mp hi with hi | ⟨rfl, -, rfl⟩ <;>
      rcases holds_concat.mp hj with hj | ⟨rfl, -, hk⟩
    · exact h.unique i j k hi hj
    · exact absurd hk.symm (hne i _ hi)
    · exact absurd rfl (hne j _ hj)
    · rfl
  · obtain ⟨i, hi⟩ := h.registered k hk
    exact ⟨i, holds_concat.mpr (Or.inl hi)⟩
  · rcases getElem?_concat_eq_some.mp hx with hx | ⟨rfl, rfl⟩
    · exact h.serving i x hx ho (Or.inl (ht.resolve_right (by simp)))
    · simp at ht
  · rcases getElem?_concat_eq_some.mp hx with hx | ⟨rfl, rfl⟩
    · simpa [ha, Acceptor.sock] using h.unqueued i x hx ho ht
    · rfl
  · obtain rfl : s.conns.length = i := by simpa [Acceptor.sock] using hi
    refine ⟨_, List.getElem?_concat_length _ _, rfl, fun _ => ⟨rfl, fun hmem => ?_⟩⟩
    obtain ⟨j, hj⟩ := h.registered fd hmem
    exact hne j fd hj rfl
  · rcases getElem?_concat_eq_some.mp hx with hx | ⟨rfl, rfl⟩
    · exact h.finished i x hx ht
    · simp at ht
  · rcases getElem?_concat_eq_some.mp hx with hx | ⟨rfl, rfl⟩
    · simpa [ha, hl] using (h.stale i x hx ho ht).2
    · simp at ho

theorem pending (h : ConnInv s) {c : Nat} {x : Conn} (ha : s.acceptor.sock = some c)
    (hreg : s.acceptor ≠ .registered c) (hx : s.conns[c]? = some x) :
    x.task = .unqueued ∧ x.isOpen = true ∧ x.fd ∉ s.clients := by
  obtain ⟨y, hy, hyt, hopen⟩ := h.held c ha
  rw [hx] at hy
  cases hy
  exact ⟨hyt, hopen hreg⟩

theorem open_of_registered (h : ConnInv s) {c : Nat} {x : Conn} (hx : s.conns[c]? = some x)
    (ht : x.task ≠ .finished) (hmem : x.fd ∈ s.clients) : x.isOpen = true := by
  by_contra hc
  obtain ⟨j, hj⟩ := h.registered _ hmem
  exact (h.stale c x hx (by simpa using hc) ht).1 j hj

theorem sock_ne (h : ConnInv s) {c i : Nat} {x : Conn} (hx : s.conns[c]? = some x)
    (ht : x.task ≠ .unqueued) (hi : s.acceptor.sock = some i) : i ≠ c := by
  rintro rfl
  obtain ⟨y, hy, hyt, -⟩ := h.held i hi
  rw [hx] at hy
  cases hy
  exact ht hyt

theorem runRefuse (h : ConnInv s) {c : Nat} {x : Conn} (ha : s.acceptor = .accepted c)
    (hx : s.conns[c]? = some x) :
    ConnInv { s with conns := s.conns.map (Conn.close x.fd), acceptor := .exited } := by
  obtain ⟨-, -, hfree⟩ := h.pending (by rw [ha]; rfl) (by rw [ha]; simp) hx
  refine ⟨fun i j k hi hj => h.unique i j k (holds_map_close.mp hi).1 (holds_map_close.mp hj).1,
    h.nodup, fun k hk => ?_, fun i x hx' ho ht => ?_, fun i x hx' ho ht => ?_, fun i hi => ?_,
    fun i x hx' ht => ?_, fun i x hx' ho ht => ?_⟩
  · obtain ⟨i, hi⟩ := h.registered k hk
    exact ⟨i, holds_map_close.mpr ⟨hi, fun e => hfree (e ▸ hk)⟩⟩
  all_goals try simp only [List.getElem?_map, Option.map_eq_some'] at hx'
  all_goals try obtain ⟨z, hz, rfl⟩ := hx'
  · simp only [Conn.close_isOpen, Bool.and_eq_true, decide_eq_true_eq] at ho
    exact h.serving i z hz ho.1 (Or.inl (ht.resolve_right (by simp)))
  · simp only [Conn.close_isOpen, Bool.and_eq_true, decide_eq_true_eq] at ho
    have hsock := h.unqueued i z hz ho.1 ht
    rw [ha] at hsock
    obtain rfl : c = i := by simpa [Acceptor.sock] using hsock
    exact absurd (congrArg Conn.fd (Option.some.inj (hz.symm.trans hx))) ho.2
  · simp [Acceptor.sock] at hi
  · simp [h.finished i z hz ht]
  · refine ⟨fun j hj => ?_, Or.inl rfl⟩
    obtain ⟨hj, hne⟩ := holds_map_close.mp hj
    by_cases hzo : z.isOpen = true
    · exact hne (by simpa [hzo] using ho)
    · exact (h.stale i z hz (by simpa using hzo) ht).1 j hj

theorem runAdmit (h : ConnInv s) {c : Nat} (ha : s.acceptor = .accepted c) :
    ConnInv { s with acceptor := .admitted c } where
  unique := h.unique
  nodup := h.nodup
  registered := h.registered
  serving i x hx ho ht := h.serving i x hx ho (Or.inl (ht.resolve_right (by simp)))
  unqueued i x hx ho ht := by simpa [ha, Acceptor.sock] using h.unqueued i x hx ho ht
  held i hi := by
    obtain ⟨x, hx, ht, hopen⟩ := h.held i (by simpa [ha, Acceptor.sock] using hi)
    exact ⟨x, hx, ht, fun _ => hopen (by simp [ha])⟩
  finished := h.finished
  stale i x hx ho ht :=
    ⟨(h.stale i x hx ho ht).1, Or.inr (by simpa [ha] using (h.stale i x hx ho ht).2)⟩

theorem addClient (h : ConnInv s) {c : Nat} {x : Conn} (ha : s.acceptor = .admitted c)
    (hx : s.conns[c]? = some x) :
    ConnInv { s with clients := s.clients ++ [x.fd], acceptor := .registered c } := by
  obtain ⟨hxt, ho, hfree⟩ := h.pending (by rw [ha]; rfl) (by rw [ha]; simp) hx
  refine ⟨h.unique, List.nodup_append.mpr ⟨h.nodup, List.nodup_singleton _, ?_⟩, fun k hk => ?_,
    fun i z hz hzo ht => ?_, fun i z hz hzo ht => ?_, fun i hi => ?_, h.finished,
    fun i z hz hzo ht => ⟨(h.stale i z hz hzo ht).1, Or.inr (by simpa [ha] using (h.stale i z hz hzo ht).2)⟩⟩
  · simpa using hfree
  · rcases List.mem_append.mp hk with hk | hk
    · exact h.registered k hk
    · exact ⟨c, x, hx, ho, (List.mem_singleton.mp hk).symm⟩
  · rcases ht with ht | ht
    · exact List.mem_append_left _ (h.serving i z hz hzo (Or.inl ht))
    · obtain rfl : c = i := by simpa using ht
      rw [Option.some.inj (hz.symm.trans hx)]
      exact List.mem_append_right _ (List.mem_singleton_self _)
  · simpa [ha, Acceptor.sock] using h.unqueued i z hz hzo ht
  · obtain rfl : c = i := by simpa [Acceptor.sock] using hi
    exact ⟨x, hx, hxt, fun hne => absurd rfl hne⟩

theorem runEnqueue (h : ConnInv s) {c : Nat} {x : Conn} (ha : s.acceptor = .registered c)
    (hx : s.conns[c]? = some x) :
    ConnInv { s with conns := s.conns.set c { x with task := .serving }, acceptor := .top } := by
  obtain ⟨y, hy, hyt, -⟩ := h.held c (by rw [ha]; rfl)
  have hyx : y = x := Option.some.inj (hy.symm.trans hx)
  subst hyx
  have hstale : ∀ (i : Nat) (z : Conn), s.conns[i]? = some z -> z.isOpen = false -> z.task ≠ .finished ->
      (∀ j, ¬ Holds (s.conns.set c { y with task := .serving }) j z.fd) ∧
        (Acceptor.top = .exited ∨ s.listening = false) := fun i z hz hzo ht =>
    ⟨fun j hj => (h.stale i z hz hzo ht).1 j ((holds_set_task hy _).mp hj),
      Or.inr (by simpa [ha] using (h.stale i z hz hzo ht).2)⟩
  refine ⟨fun i j k hi hj => h.unique i j k ((holds_set_task hy _).mp hi) ((holds_set_task hy _).mp hj),
    h.nodup, fun k hk => ?_, fun i z hz hzo ht => ?_, fun i z hz hzo ht => ?_,
    fun i hi => by simp [Acceptor.sock] at hi, fun i z hz ht => ?_, fun i z hz hzo ht => ?_⟩
  · obtain ⟨i, hi⟩ := h.registered k hk
    exact ⟨i, (holds_set_task hy _).mpr hi⟩
  · rcases (getElem?_set_eq_some hy).mp hz with ⟨rfl, rfl⟩ | ⟨-, hz⟩
    · exact h.serving i y hy hzo (Or.inr ha)
    · exact h.serving i z hz hzo (Or.inl (ht.resolve_right (by simp)))
  · rcases (getElem?_set_eq_some hy).mp hz with ⟨rfl, rfl⟩ | ⟨hi, hz⟩
    · simp at ht
    · have hsock := h.unqueued i z hz hzo ht
      rw [ha] at hsock
      exact absurd (by simpa [Acceptor.sock] using hsock) (Ne.symm hi)
  · rcases (getElem?_set_eq_some hy).mp hz with ⟨rfl, rfl⟩ | ⟨-, hz⟩
    · simp at ht
    · exact h.finished i z hz ht
  · rcases (getElem?_set_eq_some hy).mp hz with ⟨rfl, rfl⟩ | ⟨-, hz⟩
    · exact hstale i y hy hzo (by rw [hyt]; simp)
    · exact hstale i z hz hzo ht

theorem removeClient (h : ConnInv s) {c : Nat} {x : Conn} (hx : s.conns[c]? = some x)
    (ht : x.task = .serving) (hmem : x.fd ∈ s.clients) :
    ConnInv { s with
      conns := (s.conns.map (Conn.close x.fd)).set c { x with isOpen := false, task := .finished },
      clients := s.clients.erase x.fd } := by
  have ho := h.open_of_registered hx (by rw [ht]; simp) hmem
  have hx' : (s.conns.map (Conn.close x.fd))[c]? = some (x.close x.fd) := by simp [hx]
  have hholds : ∀ i k, Holds ((s.conns.map (Conn.close x.fd)).set c
      { x with isOpen := false, task := .finished }) i k ↔ Holds s.conns i k ∧ k ≠ x.fd := by
    intro i k
    rw [holds_set hx', holds_map_close]
    constructor
    · rintro (⟨-, hik⟩ | ⟨-, hf, -⟩)
      · exact hik
      · simp at hf
    · rintro ⟨hik, hk⟩
      refine Or.inl ⟨fun e => hk ?_, hik, hk⟩
      obtain ⟨z, hz, -, rfl⟩ := hik
      rw [e, hx] at hz
      cases hz
      rfl
  /- The connections other than `c` are those of `s`, with `x.fd` closed. -/
  have hother : ∀ (i : Nat) (z : Conn), (((s.conns.map (Conn.close x.fd)).set c
      { x with isOpen := false, task := .finished })[i]? = some z) ->
      (i = c ∧ z = { x with isOpen := false, task := .finished }) ∨
        (i ≠ c ∧ ∃ y : Conn, s.conns[i]? = some y ∧ z = y.close x.fd) := by
    intro i z hz
    rcases (getElem?_set_eq_some hx').mp hz with h1 | ⟨hi, hz⟩
    · exact Or.inl h1
    · simp only [List.getElem?_map, Option.map_eq_some'] at hz
      obtain ⟨y, hy, rfl⟩ := hz
      exact Or.inr ⟨hi, y, hy, rfl⟩
  /- An open connection other than `c` does not hold `x.fd`. -/
  have hfd : ∀ (i : Nat) (y : Conn), s.conns[i]? = some y -> y.isOpen = true -> i ≠ c -> y.fd ≠ x.fd :=
    fun i y hy hyo hi e => hi (h.unique i c x.fd ⟨y, hy, hyo, e⟩ ⟨x, hx, ho, rfl⟩)
  refine ⟨fun i j k hi hj => h.unique i j k ((hholds i k).mp hi).1 ((hholds j k).mp hj).1,
    h.nodup.erase _, fun k hk => ?_, fun i z hz hzo htz => ?_, fun i z hz hzo htz => ?_,
    fun i hi => ?_, fun i z hz htz => ?_, fun i z hz hzo htz => ?_⟩
  · obtain ⟨hk, hmem⟩ := (List.Nodup.mem_erase_iff h.nodup).mp hk
    obtain ⟨i, hi⟩ := h.registered k hmem
    exact ⟨i, (hholds i k).mpr ⟨hi, hk⟩⟩
  · rcases hother i z hz with ⟨-, rfl⟩ | ⟨hi, y, hy, rfl⟩
    · simp at hzo
    · have hyo : y.isOpen = true := by simpa using (Bool.and_eq_true _ _).mp hzo |>.1
      exact (List.Nodup.mem_erase_iff h.nodup).mpr
        ⟨hfd i y hy hyo hi, h.serving i y hy hyo htz⟩
  · rcases hother i z hz with ⟨-, rfl⟩ | ⟨-, y, hy, rfl⟩
    · simp at hzo
    · exact h.unqueued i y hy ((Bool.and_eq_true _ _).mp hzo).1 htz
  · obtain ⟨y, hy, hyt, hopen⟩ := h.held i hi
    have hic := h.sock_ne hx (by rw [ht]; simp) hi
    refine ⟨y.close x.fd, by simp [getElem?_set_of hx', hic, hy], hyt, fun hreg => ?_⟩
    obtain ⟨hyo, hyfree⟩ := hopen hreg
    exact ⟨by simp [hyo, hfd i y hy hyo hic], fun hm => hyfree (List.mem_of_mem_erase hm)⟩
  · rcases hother i z hz with ⟨-, rfl⟩ | ⟨-, y, hy, rfl⟩
    · rfl
    · simp [h.finished i y hy htz]
  · rcases hother i z hz with ⟨-, rfl⟩ | ⟨hi, y, hy, rfl⟩
    · simp at htz
    · by_cases hyo : y.isOpen = true
      · exact absurd (by simpa [hyo] using hzo) (hfd i y hy hyo hi)
      · have hst := h.stale i y hy (by simpa using hyo) htz
        exact ⟨fun j hj => hst.1 j ((hholds j _).mp hj).1, hst.2⟩

theorem removeClientAbsent (h : ConnInv s) {c : Nat} {x : Conn} (hx : s.conns[c]? = some x)
    (ht : x.task = .serving) (hmem : x.fd ∉ s.clients) :
    ConnInv { s with conns := s.conns.set c { x with task := .finished } } := by
  have hc : x.isOpen = false := by
    by_contra ho
    exact hmem (h.serving c x hx (by simpa using ho) (Or.inl ht))
  refine ⟨fun i j k hi hj => h.unique i j k ((holds_set_task hx _).mp hi) ((holds_set_task hx _).mp hj),
    h.nodup, fun k hk => ?_, fun i z hz hzo htz => ?_, fun i z hz hzo htz => ?_, fun i hi => ?_,
    fun i z hz htz => ?_, fun i z hz hzo htz => ?_⟩
  · obtain ⟨i, hi⟩ := h.registered k hk
    exact ⟨i, (holds_set_task hx _).mpr hi⟩
  · rcases (getElem?_set_eq_some hx).mp hz with ⟨-, rfl⟩ | ⟨-, hz⟩
    · simp [hc] at hzo
    · exact h.serving i z hz hzo htz
  · rcases (getElem?_set_eq_some hx).mp hz with ⟨-, rfl⟩ | ⟨-, hz⟩
    · simp [hc] at hzo
    · exact h.unqueued i z hz hzo htz
  · obtain ⟨y, hy, hyt, hopen⟩ := h.held i hi
    have hic := h.sock_ne hx (by rw [ht]; simp) hi
    exact ⟨y, by rw [getElem?_set_of hx, if_neg hic, hy], hyt, hopen⟩
  · rcases (getElem?_set_eq_some hx).mp hz with ⟨-, rfl⟩ | ⟨-, hz⟩
    · exact hc
    · exact h.finished i z hz htz
  · rcases (getElem?_set_eq_some hx).mp hz with ⟨-, rfl⟩ | ⟨-, hz⟩
    · simp at htz
    · have hst := h.stale i z hz hzo htz
      exact ⟨fun j hj => hst.1 j ((holds_set_task hx _).mp hj), hst.2⟩

theorem stopCloseClients (h : ConnInv s) (hl : s.listening = false) (stops : List Stopper) :
    ConnInv { s with conns := closeEach s.clients s.conns, clients := [], stops := stops } := by
  have hget : ∀ (i : Nat) (z : Conn), (closeEach s.clients s.conns)[i]? = some z ->
      ∃ y : Conn, s.conns[i]? = some y ∧ z = { y with isOpen := y.isOpen && decide (y.fd ∉ s.clients) } := by
    intro i z hz
    simp only [getElem?_closeEach, Option.map_eq_some'] at hz
    obtain ⟨y, hy, rfl⟩ := hz
    exact ⟨y, hy, rfl⟩
  refine ⟨fun i j k hi hj => h.unique i j k (holds_closeEach.mp hi).1 (holds_closeEach.mp hj).1,
    List.nodup_nil, fun k hk => absurd hk (List.not_mem_nil k), fun i z hz hzo htz => ?_,
    fun i z hz hzo htz => ?_,
    fun i hi => ?_, fun i z hz htz => ?_, fun i z hz hzo htz => ⟨fun j hj => ?_, Or.inr hl⟩⟩
  · obtain ⟨y, hy, rfl⟩ := hget i z hz
    simp only [Bool.and_eq_true, decide_eq_true_eq] at hzo
    exact absurd (h.serving i y hy hzo.1 htz) hzo.2
  · obtain ⟨y, hy, rfl⟩ := hget i z hz
    exact h.unqueued i y hy ((Bool.and_eq_true _ _).mp hzo).1 htz
  · obtain ⟨y, hy, hyt, hopen⟩ := h.held i hi
    refine ⟨{ y with isOpen := y.isOpen && decide (y.fd ∉ s.clients) },
      by simp [getElem?_closeEach, hy], hyt, fun hreg => ?_⟩
    obtain ⟨hyo, hyfree⟩ := hopen hreg
    exact ⟨by simp [hyo, hyfree], List.not_mem_nil _⟩
  · obtain ⟨y, hy, rfl⟩ := hget i z hz
    simp [h.finished i y hy htz]
  · obtain ⟨y, hy, rfl⟩ := hget i z hz
    obtain ⟨hj, hfree⟩ := holds_closeEach.mp hj
    have hyo : y.isOpen = false := by simpa [hfree] using hzo
    exact (h.stale i y hy hyo htz).1 j hj

end ConnInv

/-!
## `stop` calls
-/

theorem exists_mem_set {l : List Stopper} {i : Nat} {p p' : Stopper} (hi : l[i]? = some p)
    (hp : p.hasCleared = true -> p'.hasCleared = true) (h : ∃ q : Stopper, q ∈ l ∧ q.hasCleared = true) :
    ∃ q : Stopper, q ∈ l.set i p' ∧ q.hasCleared = true := by
  obtain ⟨q, hq, hqc⟩ := h
  obtain ⟨j, hj⟩ := List.mem_iff_getElem?.mp hq
  by_cases hji : j = i
  · subst hji
    rw [hi] at hj
    cases hj
    exact ⟨p', mem_set_of_getElem? hi p', hp hqc⟩
  · exact ⟨q, List.mem_iff_getElem?.mpr ⟨j, by rw [List.getElem?_set_ne (Ne.symm hji)]; exact hj⟩, hqc⟩

theorem single_set {l : List Stopper} {i : Nat} {p p' : Stopper} (hi : l[i]? = some p)
    (hp : p.done = false)
    (h : ∀ (j k : Nat) (q r : Stopper), l[j]? = some q -> l[k]? = some r -> q.done = false ->
      r.done = false -> j = k) :
    ∀ (j k : Nat) (q r : Stopper), (l.set i p')[j]? = some q -> (l.set i p')[k]? = some r ->
      q.done = false -> r.done = false -> j = k := by
  have hrun : ∀ (j : Nat) (q : Stopper), (l.set i p')[j]? = some q -> q.done = false ->
      ∃ q₀ : Stopper, l[j]? = some q₀ ∧ q₀.done = false := by
    intro j q hj hq
    rcases (getElem?_set_eq_some hi).mp hj with ⟨rfl, -⟩ | ⟨-, hj⟩
    · exact ⟨p, hi, hp⟩
    · exact ⟨q, hj, hq⟩
  intro j k q r hj hk hq hr
  obtain ⟨q₀, hj₀, hq₀⟩ := hrun j q hj hq
  obtain ⟨r₀, hk₀, hr₀⟩ := hrun k r hk hr
  exact h j k q₀ r₀ hj₀ hk₀ hq₀ hr₀

theorem Stopper.done_of_inFlight {p : Stopper} (h : p.inFlight = true) : p.done = false := by
  cases p <;> simp_all [Stopper.inFlight, Stopper.done]

namespace StopInv

variable {overlap : Bool} {s : State}

theorem inFlight_set (h : StopInv overlap s) (ho : overlap = false) {i : Nat} {p : Stopper}
    (hi : s.stops[i]? = some p) (hp : p.done = false) (p' : Stopper) (hp' : p'.inFlight = false) :
    ∀ q ∈ s.stops.set i p', q.inFlight = false := by
  intro q hq
  obtain ⟨j, hj⟩ := List.mem_iff_getElem?.mp hq
  rcases (getElem?_set_eq_some hi).mp hj with ⟨-, rfl⟩ | ⟨hji, hj⟩
  · exact hp'
  · cases hq : q.inFlight
    · rfl
    · exact absurd (h.single ho j i q p hj hi (Stopper.done_of_inFlight hq) hp) hji

theorem congr (h : StopInv overlap s) {s' : State} (hr : s'.running = s.running)
    (hf : s'.serverFd = s.serverFd) (hl : s'.listening = s.listening) (hs : s'.stops = s.stops)
    (ha : s'.acceptor = .exited -> s.running = false) : StopInv overlap s' := by
  obtain ⟨r, f, l, cl, cn, a, st⟩ := s'
  simp only at hr hf hl hs ha
  subst hr hf hl hs
  exact { h with exited := ha }

theorem stopCall (h : StopInv overlap s) (hcall : overlap = true ∨ ∀ p ∈ s.stops, p.done = true) :
    StopInv overlap { s with stops := s.stops ++ [.entered] } where
  running := h.running
  serverFd := h.serverFd
  cleared p hp hc := by
    rcases List.mem_append.mp hp with hp | hp
    · exact h.cleared p hp hc
    · rw [List.mem_singleton.mp hp] at hc; cases hc
  closed p hp hc := by
    rcases List.mem_append.mp hp with hp | hp
    · exact h.closed p hp hc
    · rw [List.mem_singleton.mp hp] at hc; cases hc
  stopped hr := by
    obtain ⟨p, hp, hc⟩ := h.stopped hr
    exact ⟨p, List.mem_append_left _ hp, hc⟩
  exited := h.exited
  single ho j k q r hj hk hq hr := by
    have hdone := hcall.resolve_left (by simp [ho])
    have hlast : ∀ j (q : Stopper), (s.stops ++ [.entered])[j]? = some q -> q.done = false ->
        j = s.stops.length := by
      intro j q hj hq
      rcases getElem?_concat_eq_some.mp hj with hj | ⟨rfl, -⟩
      · rw [hdone q (List.getElem?_mem hj)] at hq; cases hq
      · rfl
    rw [hlast j q hj hq, hlast k r hk hr]
  inFlight ho p hp hf := by
    rcases List.mem_append.mp hp with hp | hp
    · exact h.inFlight ho p hp hf
    · rw [List.mem_singleton.mp hp] at hf; cases hf

theorem stopTest (h : StopInv overlap s) {i : Nat} (hi : s.stops[i]? = some .entered) :
    StopInv overlap { s with stops := s.stops.set i (if s.running then .passed else .returned) } where
  running := h.running
  serverFd := h.serverFd
  cleared p hp hc := by
    rcases List.mem_or_eq_of_mem_set hp with hp | rfl
    · exact h.cleared p hp hc
    · split at hc <;> cases hc
  closed p hp hc := by
    rcases List.mem_or_eq_of_mem_set hp with hp | rfl
    · exact h.closed p hp hc
    · split at hc <;> cases hc
  stopped hr := exists_mem_set hi (fun hc => by cases hc) (h.stopped hr)
  exited := h.exited
  single ho := single_set hi rfl (h.single ho)
  inFlight ho p hp hf := by
    rcases List.mem_or_eq_of_mem_set hp with hp | rfl
    · exact h.inFlight ho p hp hf
    · split at hf
      · exact h.running ‹_›
      · cases hf

theorem stopClear (h : StopInv overlap s) {i : Nat} (hi : s.stops[i]? = some .passed) :
    StopInv overlap { s with running := false, stops := s.stops.set i .cleared } where
  running hr := by cases hr
  serverFd := h.serverFd
  cleared _ _ _ := rfl
  closed p hp hc := by
    rcases List.mem_or_eq_of_mem_set hp with hp | rfl
    · exact h.closed p hp hc
    · cases hc
  stopped _ := ⟨.cleared, mem_set_of_getElem? hi _, rfl⟩
  exited _ := rfl
  single ho := single_set hi rfl (h.single ho)
  inFlight ho _ _ _ := h.inFlight ho .passed (List.getElem?_mem hi) rfl

theorem stopTestFd (h : StopInv overlap s) {i : Nat} (hi : s.stops[i]? = some .cleared) :
    StopInv overlap { s with stops := s.stops.set i (if s.serverFd then .closing else .locking) } where
  running := h.running
  serverFd := h.serverFd
  cleared _ _ _ := h.cleared .cleared (List.getElem?_mem hi) rfl
  closed p hp hc := by
    rcases List.mem_or_eq_of_mem_set hp with hp | rfl
    · exact h.closed p hp hc
    · split at hc
      · cases hc
      · exact h.serverFd (by simpa using ‹¬s.serverFd = true›)
  stopped hr := exists_mem_set hi (fun _ => by split <;> rfl) (h.stopped hr)
  exited := h.exited
  single ho := single_set hi rfl (h.single ho)
  inFlight ho _ _ _ := h.inFlight ho .cleared (List.getElem?_mem hi) rfl

theorem stopCloseListener (h : StopInv overlap s) {i : Nat} (hi : s.stops[i]? = some .closing) :
    StopInv overlap { s with listening := false, stops := s.stops.set i .closed } where
  running hr := absurd (h.cleared .closing (List.getElem?_mem hi) rfl) (by simpa using hr)
  serverFd _ := rfl
  cleared _ _ _ := h.cleared .closing (List.getElem?_mem hi) rfl
  closed _ _ _ := rfl
  stopped hr := exists_mem_set hi (fun _ => rfl) (h.stopped hr)
  exited := h.exited
  single ho := single_set hi rfl (h.single ho)
  inFlight ho p hp hf := absurd hf (by rw [h.inFlight_set ho hi rfl .closed rfl p hp]; simp)

theorem stopCloseInvalid (h : StopInv overlap s) {i : Nat} (hi : s.stops[i]? = some .closing)
    (hf : s.serverFd = false) : StopInv overlap { s with stops := s.stops.set i .closed } where
  running := h.running
  serverFd := h.serverFd
  cleared _ _ _ := h.cleared .closing (List.getElem?_mem hi) rfl
  closed _ _ _ := h.serverFd hf
  stopped hr := exists_mem_set hi (fun _ => rfl) (h.stopped hr)
  exited := h.exited
  single ho := single_set hi rfl (h.single ho)
  inFlight ho _ _ _ := absurd (h.inFlight ho .closing (List.getElem?_mem hi) rfl).2 (by simp [hf])

theorem stopReset (h : StopInv overlap s) {i : Nat} (hi : s.stops[i]? = some .closed) :
    StopInv overlap { s with serverFd := false, stops := s.stops.set i .locking } where
  running hr := absurd (h.cleared .closed (List.getElem?_mem hi) rfl) (by simpa using hr)
  serverFd _ := h.closed .closed (List.getElem?_mem hi) rfl
  cleared _ _ _ := h.cleared .closed (List.getElem?_mem hi) rfl
  closed _ _ _ := h.closed .closed (List.getElem?_mem hi) rfl
  stopped hr := exists_mem_set hi (fun _ => rfl) (h.stopped hr)
  exited := h.exited
  single ho := single_set hi rfl (h.single ho)
  inFlight ho p hp hf := absurd hf (by rw [h.inFlight_set ho hi rfl .locking rfl p hp]; simp)

theorem stopCloseClients (h : StopInv overlap s) {i : Nat} (hi : s.stops[i]? = some .locking)
    (conns : List Conn) (clients : List Nat) :
    StopInv overlap { s with conns := conns, clients := clients, stops := s.stops.set i .finished } where
  running := h.running
  serverFd := h.serverFd
  cleared _ _ _ := h.cleared .locking (List.getElem?_mem hi) rfl
  closed _ _ _ := h.closed .locking (List.getElem?_mem hi) rfl
  stopped hr := exists_mem_set hi (fun _ => rfl) (h.stopped hr)
  exited := h.exited
  single ho := single_set hi rfl (h.single ho)
  inFlight ho p hp hf := by
    rcases List.mem_or_eq_of_mem_set hp with hp | rfl
    · exact h.inFlight ho p hp hf
    · cases hf

end StopInv

/-!
## Every interleaving
-/

theorem inv_init (overlap : Bool) : Inv overlap init where
  conn :=
    { unique := fun _ _ _ ⟨_, h, _⟩ => by simp [init] at h
      nodup := List.nodup_nil
      registered := fun _ h => absurd h (List.not_mem_nil _)
      serving := fun _ _ h => by simp [init] at h
      unqueued := fun _ _ h => by simp [init] at h
      held := fun _ h => by simp [init, Acceptor.sock] at h
      finished := fun _ _ h => by simp [init] at h
      stale := fun _ _ h => by simp [init] at h }
  stop :=
    { running := fun _ => ⟨rfl, rfl⟩
      serverFd := fun h => by cases h
      cleared := fun _ h => absurd h (List.not_mem_nil _)
      closed := fun _ h => absurd h (List.not_mem_nil _)
      stopped := fun h => by cases h
      exited := fun h => by cases h
      single := fun _ _ _ _ _ h => by simp [init] at h
      inFlight := fun _ _ h => absurd h (List.not_mem_nil _) }

variable {overlap : Bool} {s s' : State} {e : Event}

theorem Inv.step (h : Inv overlap s) (hs : Step overlap s e s') : Inv overlap s' := by
  obtain ⟨hc, hst⟩ := h
  cases hs with
  | runLoop ha _ =>
      exact ⟨hc.idle (by rw [ha]; rfl) (by rw [ha]; simp) _ rfl,
        hst.congr rfl rfl rfl rfl fun e => by cases e⟩
  | runLeave ha hr =>
      exact ⟨hc.idle (by rw [ha]; rfl) (by rw [ha]; simp) _ rfl, hst.congr rfl rfl rfl rfl fun _ => hr⟩
  | runAccept ha hl hfresh =>
      exact ⟨hc.runAccept ha hl hfresh, hst.congr rfl rfl rfl rfl fun e => by cases e⟩
  | runAcceptFail ha =>
      refine ⟨hc.idle (by rw [ha]; rfl) (by rw [ha]; simp) _ (by split <;> rfl),
        hst.congr rfl rfl rfl rfl fun e => ?_⟩
      cases hr : s.running
      · rfl
      · simp [hr] at e
  | runRefuse ha hr hx => exact ⟨hc.runRefuse ha hx, hst.congr rfl rfl rfl rfl fun _ => hr⟩
  | runAdmit ha _ => exact ⟨hc.runAdmit ha, hst.congr rfl rfl rfl rfl fun e => by cases e⟩
  | addClient ha hx => exact ⟨hc.addClient ha hx, hst.congr rfl rfl rfl rfl fun e => by cases e⟩
  | runEnqueue ha hx => exact ⟨hc.runEnqueue ha hx, hst.congr rfl rfl rfl rfl fun e => by cases e⟩
  | removeClient hx ht hm => exact ⟨hc.removeClient hx ht hm, hst.congr rfl rfl rfl rfl hst.exited⟩
  | removeClientAbsent hx ht hm =>
      exact ⟨hc.removeClientAbsent hx ht hm, hst.congr rfl rfl rfl rfl hst.exited⟩
  | stopCall hcall => exact ⟨hc.congr rfl rfl rfl rfl, hst.stopCall hcall⟩
  | stopTest hi => exact ⟨hc.congr rfl rfl rfl rfl, hst.stopTest hi⟩
  | stopClear hi => exact ⟨hc.congr rfl rfl rfl rfl, hst.stopClear hi⟩
  | stopTestFd hi => exact ⟨hc.congr rfl rfl rfl rfl, hst.stopTestFd hi⟩
  | stopCloseListener hi _ => exact ⟨hc.unlisten _, hst.stopCloseListener hi⟩
  | stopCloseInvalid hi hf => exact ⟨hc.congr rfl rfl rfl rfl, hst.stopCloseInvalid hi hf⟩
  | stopReset hi => exact ⟨hc.congr rfl rfl rfl rfl, hst.stopReset hi⟩
  | stopCloseClients hi =>
      exact ⟨hc.stopCloseClients (hst.closed .locking (List.getElem?_mem hi) rfl) _,
        hst.stopCloseClients hi _ _⟩

theorem Reachable.inv (h : Reachable overlap s) : Inv overlap s := by
  induction h with
  | init => exact inv_init overlap
  | step _ hs ih => exact ih.step hs

end Sessions

end AevumDb
