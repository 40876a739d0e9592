import Netknot.Win32.Drain

/-!
# Association with the Completion Port

An overlapped operation queues a packet only if the handle it runs on is associated with the
completion port, and the packet carries the key of the association. `createSocket` associates
the handle under `(ULONG_PTR)this` before it hands the socket out, and `acceptAsync` gets its
new socket from `createSocket`. The synchronous `accept` wraps the handle as it came.

The associated handles are owned like resources of their own: a handle becomes associated when
a socket obtains it, and stays so until it is closed. Only two steps break this: an `accept`
that hands out a socket, and a socket that closes the handle of another one.

## Main results

* `Sockets.Changes.served_iff`: which steps keep the association.
* `sockets_associated`: the sockets a user has are associated, and what is submitted on them
  completes with a packet of the service.
* `accept_unassociated`: a socket of the synchronous `accept`.
-/

namespace Netknot

namespace Sockets

/-- The handles that are associated with the completion port of the service. -/
def associated (this : ServicePtr) (s : Sockets) : Set Handle :=
  { h | (s.os h).bind OsSocket.completionKey = some this.val }

/-- The key under which the handle of object `i` is associated. -/
def completionKey (s : Sockets) (i : SocketId) : Option ℕ :=
  ((s.objects i).bind SocketObject.socket).bind fun h => (s.os h).bind OsSocket.completionKey

/-- **The operating system completes** operation `o`, which was submitted on object `i`: it
queues a packet only if the handle is associated, and hands the key out with the packet. -/
def complete {n : ℕ} (s : Sockets) (i : SocketId) (st : Win32.State n) (o : Win32.OpId)
    (szTransferred : ℕ) : Option (ℕ × Win32.State n) :=
  (s.completionKey i).bind fun key => (st.completeStep o szTransferred).map fun st' => (key, st')

/-- **Object `i` can complete asynchronous operations.** -/
structure CanComplete (this : ServicePtr) (s : Sockets) (i : SocketId) : Prop where
  /-- Its handle is associated under the address of the service, which is not null. -/
  key : s.completionKey i = some this.val
  /-- Every operation the kernel has accepted on it can complete, and queues a packet under
  the key by which a worker knows an operation. -/
  packet : ∀ (n : ℕ) (st : Win32.State n) (o : Win32.OpId) (sz : ℕ),
    (st.calls o).kernelPending = true →
    ∃ st', s.complete i st o sz = some ((Win32.Packet.op o sz).key this, st') ∧
      st'.queue = st.queue ++ [.op o sz]

/-- The associated handles have exactly one owner each, and nothing else is owned. -/
structure Served (this : ServicePtr) (s : Sockets) : Prop where
  exclusive : Ownership.Exclusive (s.associated this) s.owns
  /-- Every object wraps a handle. -/
  wrapped : ∀ i o, s.objects i = some o → ∃ h, o.socket = some h

/-- **The step condition**: no synchronous `accept` hands out a socket, and no socket that has
closed its handle closes the value again once it belongs to another socket. -/
def keepsAssociation (s : Sockets) (l : SocketLabel) : Prop :=
  l.handsOut = false ∧
    ∀ i, l.closes = some i → ∀ o, s.objects i = some o → o.closed = true →
      ∀ h, o.socket = some h → ∀ j, s.owns j ≠ some h

/-! ### What a step does to the associated handles -/

/-- A new handle is associated when it was opened with the key. -/
theorem associated_openHandle {this : ServicePtr} {s : Sockets} {h : Handle} {os : OsSocket}
    (hkey : os.completionKey = some this.val) :
    (s.openHandle h os).associated this = insert h (s.associated this) := by
  ext h'
  by_cases heq : h' = h
  · subst heq
    simp [associated, openHandle, hkey]
  · simp [associated, openHandle, heq]

/-- A handle that `::accept` opened is not associated. -/
theorem associated_openHandle_none {this : ServicePtr} {s : Sockets} {h : Handle} {os : OsSocket}
    (hh : s.os h = none) (hkey : os.completionKey = none) :
    (s.openHandle h os).associated this = s.associated this := by
  ext h'
  by_cases heq : h' = h
  · subst heq
    simp [associated, openHandle, hkey, hh]
  · simp [associated, openHandle, heq]

/-- `close()` ends the association of the handle that is wrapped. -/
theorem associated_closeHandle {this : ServicePtr} {s : Sockets} {i : SocketId}
    {o : SocketObject} {h : Handle} (hsocket : o.socket = some h) :
    (s.closeHandle i o).associated this = s.associated this \ {h} := by
  ext h'
  by_cases heq : h' = h
  · subst heq
    simp [associated, closeHandle, hsocket]
  · simp [associated, closeHandle, hsocket, heq]

/-- A handle that is not open is not associated. -/
theorem notMem_associated {this : ServicePtr} {s : Sockets} {h : Handle} (hh : s.os h = none) :
    h ∉ s.associated this := by
  simp [associated, hh]

/-- The step condition asks nothing of a step that neither hands out a socket of `accept` nor
closes one. -/
theorem keepsAssociation_of {s : Sockets} {l : SocketLabel} (hout : l.handsOut = false)
    (hcloses : l.closes = none) : s.keepsAssociation l := by
  refine ⟨hout, fun i hl => ?_⟩
  rw [hcloses] at hl
  cases hl

/-- The step condition asks of `close()` and of the destructor that nobody owns the handle if it
has been closed already. -/
theorem keepsAssociation_closes_iff {s : Sockets} {l : SocketLabel} {i : SocketId}
    {o : SocketObject} {h : Handle} (hl : l.closes = some i) (hi : s.objects i = some o)
    (hsocket : o.socket = some h) :
    s.keepsAssociation l ↔ (o.closed = true → ∀ j, s.owns j ≠ some h) := by
  have hout : l.handsOut = false := by
    cases l with
    | close i | dealloc i => rfl
    | createSocket _ _ _ _ | accept _ _ _ _ | acceptAsync _ _ _ _ _ _ | accepted _ => cases hl
  constructor
  · rintro ⟨-, hkeeps⟩ hclosed
    exact hkeeps i hl o hi hclosed h hsocket
  · intro hkeeps
    refine ⟨hout, fun i' hl' o' hi' hclosed h' hsocket' => ?_⟩
    obtain rfl : i = i' := Option.some.inj (hl.symm.trans hl')
    obtain rfl : o = o' := Option.some.inj (hi.symm.trans hi')
    obtain rfl : h = h' := Option.some.inj (hsocket.symm.trans hsocket')
    exact hkeeps hclosed

/-- **`close()` keeps the association** if the handle is the socket's own or nobody's. -/
theorem served_closeHandle_iff {this : ServicePtr} {s : Sockets} (hs : s.Served this)
    {i : SocketId} {o : SocketObject} {h : Handle} (hi : s.objects i = some o)
    (hsocket : o.socket = some h) :
    (s.closeHandle i o).Served this ↔ (o.closed = true → ∀ j, s.owns j ≠ some h) := by
  have hwrapped : ∀ i' o', (s.closeHandle i o).objects i' = some o' →
      ∃ h', o'.socket = some h' := by
    intro i' o' hi'
    have hobjects : (s.closeHandle i o).objects =
        Function.update s.objects i (some { o with closed := true }) := by
      simp [closeHandle, hsocket, setObject]
    rw [hobjects] at hi'
    by_cases heq : i' = i
    · subst heq
      rw [Function.update_self] at hi'
      obtain rfl := Option.some.inj hi'
      exact ⟨h, hsocket⟩
    · rw [Function.update_of_ne heq] at hi'
      exact hs.wrapped i' o' hi'
  cases hclosed : o.closed with
  | false =>
      have howns : s.owns i = some h := by
        rw [owns_of_object hi, SocketObject.owned, hclosed, hsocket]
        rfl
      refine iff_of_true ⟨?_, hwrapped⟩ fun hc => absurd hc Bool.false_ne_true
      rw [associated_closeHandle hsocket, owns_closeHandle hsocket]
      exact hs.exclusive.release howns
  | true =>
      have howns : (s.closeHandle i o).owns = s.owns := by
        rw [owns_closeHandle hsocket]
        refine update_owns_eq ?_
        rw [owns_of_object hi, SocketObject.owned, if_pos hclosed]
      constructor
      · rintro ⟨hexclusive, -⟩ - j hj
        rw [associated_closeHandle hsocket, howns] at hexclusive
        exact (hexclusive.used j h hj).2 rfl
      · intro hnobody
        have hfree : h ∉ s.associated this := by
          intro hmem
          obtain ⟨j, hj, -⟩ := hs.exclusive.owned h hmem
          exact hnobody rfl j hj
        refine ⟨?_, hwrapped⟩
        rw [associated_closeHandle hsocket, howns, Set.sdiff_singleton_eq_self hfree]
        exact hs.exclusive

/-- An object that owns nothing can go. -/
theorem served_setObject_none_iff {this : ServicePtr} {s : Sockets} {i : SocketId}
    (howns : s.owns i = none) (hwrapped : ∀ o, s.objects i = some o → ∃ h, o.socket = some h) :
    (s.setObject i none).Served this ↔ s.Served this := by
  have heq : (s.setObject i none).owns = s.owns := by
    rw [owns_setObject]
    exact update_owns_eq howns
  constructor
  · rintro ⟨hexclusive, hothers⟩
    rw [heq] at hexclusive
    refine ⟨hexclusive, fun i' o' hi' => ?_⟩
    by_cases hii : i' = i
    · subst hii
      exact hwrapped o' hi'
    · exact hothers i' o' ((Function.update_of_ne hii _ _).trans hi')
  · rintro ⟨hexclusive, hothers⟩
    refine ⟨by rw [heq]; exact hexclusive, fun i' o' hi' => ?_⟩
    by_cases hii : i' = i
    · subst hii
      cases hi'.symm.trans (Function.update_self _ _ _)
    · exact hothers i' o' ((Function.update_of_ne hii _ _).symm.trans hi')

/-- A new socket wraps a handle, like the others. -/
theorem Served.wrapped_obtain {this : ServicePtr} {s : Sockets} (hs : s.Served this)
    {j : SocketId} {h : Handle} {os : OsSocket} {delivered : Bool} (i : SocketId)
    (o : SocketObject) (hi : ((s.openHandle h os).setObject j
      (some { socket := some h, delivered })).objects i = some o) : ∃ h', o.socket = some h' := by
  by_cases heq : i = j
  · subst heq
    obtain rfl := Option.some.inj (hi.symm.trans (Function.update_self _ _ _))
    exact ⟨h, rfl⟩
  · exact hs.wrapped i o ((Function.update_of_ne heq _ _).symm.trans hi)

/-- **One step keeps the association if and only if it meets the step condition.** -/
theorem Changes.served_iff {this : ServicePtr} {s t : Sockets} {l : SocketLabel}
    (h : Changes .win32 this s l t) (hs : s.Served this) :
    t.Served this ↔ s.keepsAssociation l := by
  cases h with
  | idle hl hcloses hout => exact iff_of_true hs (keepsAssociation_of hout hcloses)
  | obtains j h os delivered hl hcloses hj hh hkey =>
      have howns := owns_eq_none hj
      cases hout : l.handsOut with
      | true =>
          have hnone : os.completionKey = none := by simpa [hout] using hkey rfl
          refine iff_of_false (fun ht => ?_) fun hkeeps => ?_
          · have hexclusive := ht.exclusive
            rw [owns_setObject, owns_openHandle] at hexclusive
            have hmem := hexclusive.used j h (Function.update_self _ _ _)
            have hold : h ∈ s.associated this := by
              rw [← associated_openHandle_none hh hnone]
              exact hmem
            exact notMem_associated hh hold
          · exact absurd (hout.symm.trans hkeeps.1) Bool.noConfusion
      | false =>
          have hassoc : os.completionKey = some this.val := by simpa [hout] using hkey rfl
          refine iff_of_true ⟨?_, hs.wrapped_obtain⟩ (keepsAssociation_of hout hcloses)
          have heq : ((s.openHandle h os).setObject j
              (some { socket := some h, delivered })).associated this =
              insert h (s.associated this) := associated_openHandle hassoc
          rw [heq, owns_setObject, owns_openHandle]
          exact hs.exclusive.acquire (notMem_associated hh) howns
  | leaks hh =>
      refine iff_of_true ⟨?_, hs.wrapped⟩ (keepsAssociation_of rfl rfl)
      rw [associated_openHandle_none hh rfl, owns_openHandle]
      exact hs.exclusive
  | @delivers j o hj =>
      refine iff_of_true ⟨?_, fun i o' hi => ?_⟩ (keepsAssociation_of rfl rfl)
      · rw [owns_deliver hj]
        exact hs.exclusive
      · by_cases heq : i = j
        · subst heq
          obtain rfl := Option.some.inj (hi.symm.trans (Function.update_self _ _ _))
          exact hs.wrapped i o hj
        · exact hs.wrapped i o' ((Function.update_of_ne heq _ _).symm.trans hi)
  | closes hi =>
      obtain ⟨h, hsocket⟩ := hs.wrapped _ _ hi
      rw [keepsAssociation_closes_iff rfl hi hsocket]
      exact served_closeHandle_iff hs hi hsocket
  | @deallocs i o hi =>
      obtain ⟨h, hsocket⟩ := hs.wrapped _ _ hi
      rw [keepsAssociation_closes_iff rfl hi hsocket, ← served_closeHandle_iff hs hi hsocket]
      refine served_setObject_none_iff (owns_closeHandle_self hi) fun o' hi' => ?_
      have hobjects : (s.closeHandle i o).objects i = some { o with closed := true } := by
        simp [closeHandle, hsocket, setObject]
      obtain rfl := Option.some.inj (hi'.symm.trans hobjects)
      exact ⟨h, hsocket⟩
  | aborts reason hl hcloses hout hreason =>
      exact iff_of_true ⟨hs.exclusive, hs.wrapped⟩ (keepsAssociation_of hout (hcloses rfl))
  | abandons j h hb hl hj hh => cases hb
  | destroys hb hi hsocket hclosed => cases hb

/-- At the start no handle is associated. -/
theorem served_init (b : Backend) (this : ServicePtr) : (sockets b this).init.Served this where
  exclusive := by
    have hnone : ({} : Sockets).associated this = ∅ := by
      ext h
      simp [associated]
    rw [sockets, hnone]
    exact Ownership.exclusive_empty
  wrapped := fun i o hi => by cases hi

/-- **A socket that owns its handle can complete what is submitted on it.** -/
theorem Served.canComplete {this : ServicePtr} {s : Sockets} (hs : s.Served this) {i : SocketId}
    {o : SocketObject} (hi : s.objects i = some o) (hclosed : o.closed = false) :
    s.CanComplete this i := by
  obtain ⟨h, hsocket⟩ := hs.wrapped i o hi
  have howns : s.owns i = some h := by
    rw [owns_of_object hi, SocketObject.owned, hclosed, hsocket]
    rfl
  have hkey : s.completionKey i = some this.val := by
    rw [completionKey, hi, Option.bind_some, hsocket, Option.bind_some]
    exact hs.exclusive.used i h howns
  refine ⟨hkey, fun n st op sz hpending => ?_⟩
  rw [complete, hkey, Option.bind_some, Win32.State.completeStep, if_pos hpending]
  exact ⟨_, rfl, rfl⟩

end Sockets

/-! ### The sockets a user has -/

/-- **Every socket the library has handed out can complete asynchronous operations**, along
every run in which no synchronous `accept` hands one out and no socket closes the handle of
another. A step that does so breaks the association. -/
theorem sockets_associated (this : ServicePtr) (s : Sockets)
    (hrun : (sockets .win32 this).RunWhere Sockets.keepsAssociation
      (sockets .win32 this).init s) :
    (∀ i o, s.objects i = some o → o.delivered = true → o.closed = false →
      s.CanComplete this i) ∧
      ∀ l t, (sockets .win32 this).step s l = some t →
        (t.Served this ↔ s.keepsAssociation l) := by
  have hs : s.Served this := hrun.invariant (Sockets.served_init .win32 this)
    fun s l t hs hl hstep => ((Sockets.changes_of_step hstep).served_iff hs).mpr hl
  refine ⟨fun i o hi _ hclosed => hs.canComplete hi hclosed, fun l t hstep => ?_⟩
  exact (Sockets.changes_of_step hstep).served_iff hs

/-- A socket of `createSocket` can complete what is submitted on it. -/
theorem sockets_associated_created :
    ∃ s : Sockets, s.owns 0 = some 4 ∧ s.CanComplete servicePtr 0 := by
  obtain ⟨s, hstep, howns, hobject⟩ : ∃ s ∈ (sockets .win32 servicePtr).step
      (sockets .win32 servicePtr).init (.createSocket 0 true (some 4) true),
      s.owns 0 = some 4 ∧ s.objects 0 = some { socket := some 4 } := by decide
  have hrun : (sockets .win32 servicePtr).RunWhere Sockets.keepsAssociation
      (sockets .win32 servicePtr).init s :=
    Machine.RunWhere.single (Sockets.keepsAssociation_of rfl rfl) hstep
  exact ⟨s, howns, (sockets_associated servicePtr s hrun).1 0 _ hobject rfl rfl⟩

/-- **A socket of the synchronous `accept`** is not associated: no operation submitted on it
ever queues a packet. -/
theorem accept_unassociated :
    ¬∀ (this : ServicePtr) (s : Sockets), (sockets .win32 this).Reachable s →
      ∀ i o, s.objects i = some o → o.delivered = true → o.closed = false →
        s.CanComplete this i := by
  intro h
  obtain ⟨s, hrun, hobject, hkey⟩ := Machine.exists_runWhere (M := sockets .win32 servicePtr)
    (G := fun _ _ => True) (s := (sockets .win32 servicePtr).init)
    (P := fun s => s.objects 1 = some { socket := some 5 } ∧ s.completionKey 1 = none)
    acceptsOnce (by decide)
  have hcan := h servicePtr s hrun 1 _ hobject rfl rfl
  cases hkey.symm.trans hcan.key

end Netknot
