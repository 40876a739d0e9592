import Netknot.Lib.Machine
import Netknot.Lib.Ownership
import Netknot.Win32.LastError

/-!
# Sockets and Their Handles

The `Socket` objects of both backends and the handles of the operating system they wrap. A
call is one step: `createSocket`, the synchronous `accept`, `acceptAsync` with its completion,
`close` and `dealloc`, on any number of objects in any order. The operating system may hand
out a handle value again as soon as it has been closed, and a new object may be built at the
address of one that is gone.

The two backends share their `close`, which closes the handle and keeps the value in the
field `socket`. They differ in the destructor: `~Win32Socket` calls `close()`, `~UnixSocket`
terminates when the field is not negative.

A handle belongs to the object that wraps it until that object has closed it; `closed` and
`foreignCloses` are history, and no step reads them. Whether an open handle is associated
with the completion port is recorded with it.

## Main results

* `changes_of_step`: the inversion of a step.
* `sockets_lawful_iff`: every open handle has exactly one owner and is closed by it alone, as
  long as no socket is closed or destroyed after `close()`, and `accept` finds memory.
* `closed_twice`: a socket that is closed and destroyed.
-/

namespace Netknot

/-- The two implementations of `netknot::Socket`. -/
inductive Backend
  | win32
  | unix
  deriving DecidableEq, Repr

/-- The address of the service: `this` is not null. -/
abbrev ServicePtr := { p : ℕ // p ≠ 0 }

/-- A `SOCKET` other than `INVALID_SOCKET`, or a descriptor that is not negative. -/
abbrev Handle := ℕ

/-- The address of a `Socket` object. -/
abbrev SocketId := ℕ

/-- An open socket of the operating system. -/
structure OsSocket where
  /-- The key under which it is associated with the completion port. -/
  completionKey : Option ℕ := none
  deriving DecidableEq, Repr

/-- A `Win32Socket` or a `UnixSocket`. -/
structure SocketObject where
  /-- The field `socket`; `none` is `INVALID_SOCKET`, or a negative descriptor. -/
  socket : Option Handle := none
  /-- The user has it: not the one an `acceptAsync` in flight holds ready. -/
  delivered : Bool := true
  /-- History: it has closed its handle. -/
  closed : Bool := false
  deriving DecidableEq, Repr

/-- Why the process ended in `std::terminate`. -/
inductive SocketAbort
  /-- `createSocket`: an unknown family or type, no socket, or no association. -/
  | createSocket
  /-- `UnixSocket::accept`: the call failed. -/
  | accept
  /-- `wsaLastErrorToExcept` was given a code it does not list. -/
  | unlistedError (code : ℕ)
  /-- `~UnixSocket` found a descriptor that is not negative; `closed` when `close()` had been
  called. -/
  | destroyed (closed : Bool)
  /-- `UnixSocket::dealloc` releases through `selfAllocator`, which nobody sets. -/
  | nullAllocator
  deriving DecidableEq, Repr

/-- The sockets of a process. -/
structure Sockets where
  /-- The open handles. -/
  os : Handle → Option OsSocket := fun _ => none
  /-- The live objects. -/
  objects : SocketId → Option SocketObject := fun _ => none
  aborted : Option SocketAbort := none
  /-- History: how often an object closed a handle that was not its own any more. -/
  foreignCloses : ℕ := 0

/-- The handle an object owns: the one it wraps, until it has closed it. -/
def SocketObject.owned (o : SocketObject) : Option Handle := if o.closed then none else o.socket

namespace Sockets

/-- `std::terminate`. -/
def abort (s : Sockets) (reason : SocketAbort) : Sockets := { s with aborted := some reason }

/-- Object `i` becomes `o`, or goes. -/
def setObject (s : Sockets) (i : SocketId) (o : Option SocketObject) : Sockets :=
  { s with objects := Function.update s.objects i o }

/-- The operating system opens a handle. -/
def openHandle (s : Sockets) (h : Handle) (os : OsSocket) : Sockets :=
  { s with os := Function.update s.os h (some os) }

/-- `closesocket(socket)` and `::close(socket)` in the `close()` of object `i`. The handle is
closed, whoever it belongs to by now, and the field keeps its value. -/
def closeHandle (s : Sockets) (i : SocketId) (o : SocketObject) : Sockets :=
  match o.socket with
  | none => s
  | some h =>
      { s.setObject i (some { o with closed := true }) with
        os := Function.update s.os h none
        foreignCloses := s.foreignCloses + o.closed.toNat }

end Sockets

/-! ### The Win32 backend -/

/-- `Win32Socket::close`. -/
def Win32Socket.close (s : Sockets) (i : SocketId) (o : SocketObject) : Sockets :=
  s.closeHandle i o

/-- `Win32Socket::dealloc`: the destructor calls `close()`. -/
def Win32Socket.dealloc (s : Sockets) (i : SocketId) (o : SocketObject) : Sockets :=
  (Win32Socket.close s i o).setObject i none

/-- `Win32IOService::createSocket`, for an object at `i`: `allocated` when it finds memory,
`answer` is what `WSASocket` gives, and `associated` when `CreateIoCompletionPort` succeeds. -/
def Win32IOService.createSocket (this : ServicePtr) (s : Sockets) (i : SocketId)
    (allocated : Bool) (answer : Option Handle) (associated : Bool) : Sockets :=
  if allocated then
    match answer with
    | none => s.abort .createSocket
    | some h =>
        if associated then
          (s.openHandle h { completionKey := some this }).setObject i
            (some { socket := some h })
        else s.abort .createSocket
  else s

/-- `Win32Socket::accept`, for an object at `i`: `answer` is what `::accept` gives, a handle or
the code of its error. -/
def Win32Socket.accept (s : Sockets) (i : SocketId) (answer : Except ℕ Handle)
    (allocated : Bool) : Sockets :=
  match answer with
  | .error code =>
      if (Win32.wsaLastErrorToExcept true code).isSome then s else s.abort (.unlistedError code)
  | .ok h =>
      if allocated then (s.openHandle h {}).setObject i (some { socket := some h })
      else s.openHandle h {}

/-! ### The Unix backend -/

/-- `UnixSocket::close`. -/
def UnixSocket.close (s : Sockets) (i : SocketId) (o : SocketObject) : Sockets :=
  s.closeHandle i o

/-- `UnixSocket::dealloc`: the destructor terminates when the descriptor is not negative. -/
def UnixSocket.dealloc (s : Sockets) (o : SocketObject) : Sockets :=
  match o.socket with
  | some _ => s.abort (.destroyed o.closed)
  | none => s.abort .nullAllocator

/-- `UnixIOService::createSocket`, for an object at `i`. -/
def UnixIOService.createSocket (s : Sockets) (i : SocketId) (allocated : Bool)
    (answer : Option Handle) : Sockets :=
  if allocated then
    match answer with
    | none => s.abort .createSocket
    | some h => (s.openHandle h {}).setObject i (some { socket := some h })
  else s

/-- `UnixSocket::accept`, for an object at `i`. -/
def UnixSocket.accept (s : Sockets) (i : SocketId) (answer : Except ℕ Handle)
    (allocated : Bool) : Sockets :=
  match answer with
  | .error _ => s.abort .accept
  | .ok h =>
      if allocated then (s.openHandle h {}).setObject i (some { socket := some h })
      else s.openHandle h {}

/-! ### Both backends -/

/-- The calls of a user, and the completion of an `acceptAsync`. A new object is built at `j`. -/
inductive SocketLabel
  | createSocket (j : SocketId) (allocated : Bool) (answer : Option Handle) (associated : Bool)
  | accept (i j : SocketId) (answer : Except ℕ Handle) (allocated : Bool)
  /-- `released` when the call comes to `newSocket.release()`. -/
  | acceptAsync (i j : SocketId) (allocated : Bool) (answer : Option Handle)
      (associated released : Bool)
  /-- `task->callback->onAccepted(task->socket)`. -/
  | accepted (j : SocketId)
  | close (i : SocketId)
  | dealloc (i : SocketId)
  deriving DecidableEq

/-- The address at which a call builds a new object. -/
def SocketLabel.target : SocketLabel → Option SocketId
  | .createSocket j _ _ _ => some j
  | .accept _ j _ _ => some j
  | .acceptAsync _ j _ _ _ _ => some j
  | .accepted _ | .close _ | .dealloc _ => none

/-- The handle the operating system hands out in a call. -/
def SocketLabel.handle : SocketLabel → Option Handle
  | .createSocket _ _ answer _ => answer
  | .accept _ _ answer _ => answer.toOption
  | .acceptAsync _ _ _ answer _ _ => answer
  | .accepted _ | .close _ | .dealloc _ => none

/-- The object a call closes or destroys. -/
def SocketLabel.closes : SocketLabel → Option SocketId
  | .close i | .dealloc i => some i
  | _ => none

/-- The call hands out a socket of the synchronous `accept`. -/
def SocketLabel.handsOut : SocketLabel → Bool
  | .accept _ _ (.ok _) allocated => allocated
  | _ => false

namespace Sockets

/-- `close()` of object `i`. -/
def close (b : Backend) (s : Sockets) (i : SocketId) (o : SocketObject) : Sockets :=
  match b with
  | .win32 => Win32Socket.close s i o
  | .unix => UnixSocket.close s i o

/-- `dealloc()` of object `i`. -/
def dealloc (b : Backend) (s : Sockets) (i : SocketId) (o : SocketObject) : Sockets :=
  match b with
  | .win32 => Win32Socket.dealloc s i o
  | .unix => UnixSocket.dealloc s o

/-- `createSocket` of the service. -/
def createSocket (b : Backend) (this : ServicePtr) (s : Sockets) (j : SocketId)
    (allocated : Bool) (answer : Option Handle) (associated : Bool) : Sockets :=
  match b with
  | .win32 => Win32IOService.createSocket this s j allocated answer associated
  | .unix => UnixIOService.createSocket s j allocated answer

/-- The synchronous `accept`. -/
def accept (b : Backend) (s : Sockets) (j : SocketId) (answer : Except ℕ Handle)
    (allocated : Bool) : Sockets :=
  match b with
  | .win32 => Win32Socket.accept s j answer allocated
  | .unix => UnixSocket.accept s j answer allocated

/-- `acceptAsync`: `createSocket` makes the new socket. Until `newSocket.release()` the local
`newSocket` owns it and destroys it on every failing exit; from there on it is the task's. -/
def acceptAsync (b : Backend) (this : ServicePtr) (s : Sockets) (j : SocketId)
    (allocated : Bool) (answer : Option Handle) (associated released : Bool) : Sockets :=
  let s' := s.createSocket b this j allocated answer associated
  match s'.objects j with
  | none => s'
  | some o =>
      if released then s'.setObject j (some { o with delivered := false })
      else s'.dealloc b j o

/-- The call can be made: objects in use are live, the user closes and destroys what it was
given, new objects are built at free addresses, and the operating system hands out a handle
that is not open. -/
def admits (b : Backend) (s : Sockets) (l : SocketLabel) : Bool :=
  (match l with
    | .createSocket _ _ _ _ => true
    | .accept i _ _ _ | .acceptAsync i _ _ _ _ _ | .close i | .dealloc i =>
        (s.objects i).any fun o => o.delivered
    | .accepted j => b = .win32 && (s.objects j).any fun o => !o.delivered) &&
  l.target.all (fun j => (s.objects j).isNone) && l.handle.all fun h => (s.os h).isNone

/-- What the labelled call does to the sockets. -/
def call (b : Backend) (this : ServicePtr) (s : Sockets) : SocketLabel → Sockets
  | .createSocket j allocated answer associated =>
      s.createSocket b this j allocated answer associated
  | .accept _ j answer allocated => s.accept b j answer allocated
  | .acceptAsync _ j allocated answer associated released =>
      s.acceptAsync b this j allocated answer associated released
  | .accepted j =>
      s.setObject j ((s.objects j).map fun o => { o with delivered := true })
  | .close i => (s.objects i).elim s fun o => s.close b i o
  | .dealloc i => (s.objects i).elim s fun o => s.dealloc b i o

/-- One step; nothing moves after `std::terminate`. -/
def step (b : Backend) (this : ServicePtr) (s : Sockets) (l : SocketLabel) : Option Sockets :=
  if s.aborted.isNone && s.admits b l then some (s.call b this l) else none

end Sockets

/-- The sockets of a backend as a machine. -/
def sockets (b : Backend) (this : ServicePtr) : Machine Sockets SocketLabel where
  init := {}
  step := Sockets.step b this

namespace Sockets

/-- The handles that are open. -/
def used (s : Sockets) : Set Handle := { h | (s.os h).isSome = true }

/-- The handle object `i` owns. -/
def owns (s : Sockets) (i : SocketId) : Option Handle := (s.objects i).bind SocketObject.owned

/-- **The law of handles**: every handle in use has one owner, and the process goes on. -/
structure Lawful (s : Sockets) : Prop where
  /-- Every open handle belongs to exactly one live object, whose handle nobody else closes. -/
  exclusive : Ownership.Exclusive s.used s.owns
  /-- No object has closed a handle that was not its own any more. -/
  closedOnce : s.foreignCloses = 0
  /-- Destroying a socket after `close()` has not terminated the process. -/
  destroyable : s.aborted ≠ some (.destroyed true)

/-- **The step condition**: no socket is closed or destroyed after it has closed its handle,
and `accept` finds memory for the object when it has got a handle. -/
def orderly (s : Sockets) : SocketLabel → Bool
  | .accept _ _ (.ok _) allocated => allocated
  | .close i | .dealloc i => (s.objects i).all fun o => !(o.closed && o.socket.isSome)
  | _ => true

/-! ### The inversion of a step -/

/-- **What a call can do.** -/
inductive Changes (b : Backend) (this : ServicePtr) (s : Sockets) : SocketLabel → Sockets → Prop
  /-- Nothing, also when a new socket is destroyed again. -/
  | idle {l : SocketLabel} (hl : s.orderly l = true) (hcloses : l.closes = none)
      (hout : l.handsOut = false) : Changes b this s l s
  /-- A handle is opened and wrapped. -/
  | obtains {l : SocketLabel} (j : SocketId) (h : Handle) (os : OsSocket) (delivered : Bool)
      (hl : s.orderly l = true) (hcloses : l.closes = none) (hj : s.objects j = none)
      (hh : s.os h = none)
      (hkey : b = .win32 → os.completionKey = if l.handsOut then none else some this.val) :
      Changes b this s l
        ((s.openHandle h os).setObject j (some { socket := some h, delivered := delivered }))
  /-- `accept` loses the handle it got. -/
  | leaks {i j : SocketId} {h : Handle} (hh : s.os h = none) :
      Changes b this s (.accept i j (.ok h) false) (s.openHandle h {})
  /-- The socket of an `acceptAsync` is handed to its callback. -/
  | delivers {j : SocketId} {o : SocketObject} (hj : s.objects j = some o) :
      Changes b this s (.accepted j) (s.setObject j (some { o with delivered := true }))
  /-- `close()`. -/
  | closes {i : SocketId} {o : SocketObject} (hi : s.objects i = some o) :
      Changes b this s (.close i) (s.closeHandle i o)
  /-- `~Win32Socket`. -/
  | deallocs {i : SocketId} {o : SocketObject} (hi : s.objects i = some o) :
      Changes b this s (.dealloc i) ((s.closeHandle i o).setObject i none)
  /-- The process ends. -/
  | aborts {l : SocketLabel} (reason : SocketAbort) (hl : s.orderly l = true)
      (hcloses : b = .win32 → l.closes = none) (hout : l.handsOut = false)
      (hreason : reason ≠ .destroyed true) : Changes b this s l (s.abort reason)
  /-- `~UnixSocket` on the failing exit of an `acceptAsync`. -/
  | abandons {l : SocketLabel} (j : SocketId) (h : Handle) (hb : b = .unix)
      (hl : s.orderly l = true) (hj : s.objects j = none) (hh : s.os h = none) :
      Changes b this s l
        (((s.openHandle h {}).setObject j (some { socket := some h })).abort (.destroyed false))
  /-- `~UnixSocket` after `close()`. -/
  | destroys {i : SocketId} {o : SocketObject} {h : Handle} (hb : b = .unix)
      (hi : s.objects i = some o) (hsocket : o.socket = some h) (hclosed : o.closed = true) :
      Changes b this s (.dealloc i) (s.abort (.destroyed true))

/-- A socket that is made and destroyed again leaves nothing. -/
theorem dealloc_new {s : Sockets} {j : SocketId} {h : Handle} {os : OsSocket}
    (hj : s.objects j = none) (hh : s.os h = none) :
    Win32Socket.dealloc ((s.openHandle h os).setObject j (some { socket := some h })) j
      { socket := some h } = s := by
  have hos : Function.update s.os h none = s.os := by rw [← hh, Function.update_eq_self]
  have hobjects : Function.update s.objects j none = s.objects := by
    rw [← hj, Function.update_eq_self]
  simp [Win32Socket.dealloc, Win32Socket.close, closeHandle, setObject, openHandle, hos,
    hobjects]

/-- `createSocket` leaves the sockets alone, ends the process, or opens a handle and wraps it into
the new object. -/
theorem createSocket_cases (b : Backend) (this : ServicePtr) (s : Sockets) (j : SocketId)
    (allocated : Bool) (answer : Option Handle) (associated : Bool) :
    s.createSocket b this j allocated answer associated = s ∨
      s.createSocket b this j allocated answer associated = s.abort .createSocket ∨
      ∃ h os, answer = some h ∧ (b = .win32 → os.completionKey = some this.val) ∧
        (b = .unix → os = {}) ∧
        s.createSocket b this j allocated answer associated =
          (s.openHandle h os).setObject j (some { socket := some h }) := by
  cases allocated with
  | false => cases b <;> exact .inl rfl
  | true =>
      cases answer with
      | none => cases b <;> exact .inr (.inl rfl)
      | some h =>
          cases b with
          | unix => exact .inr (.inr ⟨h, {}, rfl, fun hb => (by cases hb), fun _ => rfl, rfl⟩)
          | win32 =>
              cases associated with
              | false => exact .inr (.inl rfl)
              | true =>
                  exact .inr (.inr ⟨h, { completionKey := some this }, rfl, fun _ => rfl,
                    fun hb => (by cases hb), rfl⟩)

/-- A call of `acceptAsync` makes the new object, or none, as `Changes` says. -/
theorem changes_acceptAsync (b : Backend) {this : ServicePtr} {s : Sockets} {i j : SocketId}
    {allocated : Bool} {answer : Option Handle} {associated released : Bool}
    (hj : s.objects j = none) (hh : ∀ h, answer = some h → s.os h = none) :
    Changes b this s (.acceptAsync i j allocated answer associated released)
      (s.acceptAsync b this j allocated answer associated released) := by
  simp only [acceptAsync]
  rcases createSocket_cases b this s j allocated answer associated with
    heq | heq | ⟨h, os, rfl, hkey, hunix, heq⟩
  · rw [heq, hj]
    exact .idle rfl rfl rfl
  · rw [heq]
    simp only [abort, hj]
    exact .aborts _ rfl (fun _ => rfl) rfl SocketAbort.noConfusion
  · have hobject : ((s.openHandle h os).setObject j (some { socket := some h })).objects j =
        some { socket := some h } := Function.update_self _ _ _
    simp only [heq, hobject]
    cases released with
    | true =>
        have hagain : ((s.openHandle h os).setObject j (some { socket := some h })).setObject j
            (some { socket := some h, delivered := false }) =
            (s.openHandle h os).setObject j (some { socket := some h, delivered := false }) := by
          simp [setObject]
        rw [if_pos rfl, hagain]
        exact .obtains j h os false rfl rfl hj (hh h rfl) hkey
    | false =>
        rw [if_neg Bool.false_ne_true]
        cases b with
        | win32 =>
            have hnew := @dealloc_new s j h os hj (hh h rfl)
            simp only [dealloc, hnew]
            exact .idle rfl rfl rfl
        | unix =>
            obtain rfl := hunix rfl
            exact .abandons j h rfl rfl hj (hh h rfl)

/-- The synchronous `accept` changes the sockets as `Changes` says. -/
theorem changes_accept (b : Backend) {this : ServicePtr} {s : Sockets} {i j : SocketId}
    {answer : Except ℕ Handle} {allocated : Bool} (hj : s.objects j = none)
    (hh : ∀ h, answer = .ok h → s.os h = none) :
    Changes b this s (.accept i j answer allocated) (s.accept b j answer allocated) := by
  cases answer with
  | error code =>
      cases b with
      | unix => exact .aborts _ rfl (fun _ => rfl) rfl SocketAbort.noConfusion
      | win32 =>
          simp only [accept, Win32Socket.accept]
          split
          · exact .idle rfl rfl rfl
          · exact .aborts _ rfl (fun _ => rfl) rfl SocketAbort.noConfusion
  | ok h =>
      cases allocated with
      | false => cases b <;> exact .leaks (hh h rfl)
      | true =>
          cases b <;>
            exact .obtains j h {} true rfl rfl hj (hh h rfl) fun _ => rfl

/-- A call of `dealloc()` destroys the object as `Changes` says. -/
theorem changes_dealloc (b : Backend) {this : ServicePtr} {s : Sockets} {i : SocketId}
    {o : SocketObject} (hi : s.objects i = some o) :
    Changes b this s (.dealloc i) (s.dealloc b i o) := by
  cases b with
  | win32 => exact .deallocs hi
  | unix =>
      simp only [dealloc, UnixSocket.dealloc]
      cases hsocket : o.socket with
      | none =>
          exact .aborts _ (by simp [orderly, hi, hsocket]) (fun hb => (by cases hb)) rfl
            SocketAbort.noConfusion
      | some h =>
          cases hclosed : o.closed with
          | true => exact .destroys rfl hi hsocket hclosed
          | false =>
              exact .aborts _ (by simp [orderly, hi, hclosed]) (fun hb => (by cases hb)) rfl
                (by simp)

/-- **The inversion of a step**: it changes the sockets as `Changes` says. -/
theorem changes_of_step {b : Backend} {this : ServicePtr} {s t : Sockets} {l : SocketLabel}
    (hstep : s.step b this l = some t) : Changes b this s l t := by
  rw [step] at hstep
  obtain ⟨hok, rfl⟩ := Option.ite_none_right_eq_some.mp hstep |>.imp_right Option.some.inj
  simp only [Bool.and_eq_true, admits] at hok
  obtain ⟨-, ⟨huse, hnew⟩, hfree⟩ := hok
  cases l with
  | createSocket j allocated answer associated =>
      have hj : s.objects j = none := by simpa [SocketLabel.target] using hnew
      rw [call]
      rcases createSocket_cases b this s j allocated answer associated with
        heq | heq | ⟨h, os, rfl, hkey, -, heq⟩
      · rw [heq]
        exact .idle rfl rfl rfl
      · rw [heq]
        exact .aborts _ rfl (fun _ => rfl) rfl SocketAbort.noConfusion
      · rw [heq]
        exact .obtains j h os true rfl rfl hj (by simpa [SocketLabel.handle] using hfree) hkey
  | accept i j answer allocated =>
      refine changes_accept b (by simpa [SocketLabel.target] using hnew) ?_
      rintro h rfl
      simpa [SocketLabel.handle, Except.toOption] using hfree
  | acceptAsync i j allocated answer associated released =>
      refine changes_acceptAsync b (by simpa [SocketLabel.target] using hnew) ?_
      rintro h rfl
      simpa [SocketLabel.handle] using hfree
  | accepted j =>
      simp only [Bool.and_eq_true, Option.any_eq_true] at huse
      obtain ⟨-, o, hj, -⟩ := huse
      rw [call, hj]
      exact .delivers hj
  | close i =>
      obtain ⟨o, hi, -⟩ := Option.any_eq_true _ _ |>.mp huse
      rw [call, hi]
      cases b <;> exact .closes hi
  | dealloc i =>
      obtain ⟨o, hi, -⟩ := Option.any_eq_true _ _ |>.mp huse
      rw [call, hi]
      exact changes_dealloc b hi

/-! ### Handles and their owners under a step -/

/-- A handle is in use from when it is opened. -/
@[simp] theorem used_openHandle (s : Sockets) (h : Handle) (os : OsSocket) :
    (s.openHandle h os).used = insert h s.used := by
  ext h'
  by_cases heq : h' = h
  · subst heq
    simp [used, openHandle]
  · simp [used, openHandle, heq]

/-- Opening a handle gives it to nobody. -/
@[simp] theorem owns_openHandle (s : Sockets) (h : Handle) (os : OsSocket) :
    (s.openHandle h os).owns = s.owns := rfl

/-- An object that comes or goes leaves the handles open. -/
@[simp] theorem used_setObject (s : Sockets) (i : SocketId) (o : Option SocketObject) :
    (s.setObject i o).used = s.used := rfl

/-- Object `i` owns what its new value owns. -/
@[simp] theorem owns_setObject (s : Sockets) (i : SocketId) (o : Option SocketObject) :
    (s.setObject i o).owns = Function.update s.owns i (o.bind SocketObject.owned) := by
  funext i'
  by_cases heq : i' = i
  · subst heq
    simp [owns, setObject]
  · simp [owns, setObject, heq]

/-- An object that owns nothing and takes nothing changes no owner. -/
theorem update_owns_eq {s : Sockets} {i : SocketId} {r : Option Handle} (h : s.owns i = r) :
    Function.update s.owns i r = s.owns := by
  rw [← h, Function.update_eq_self]

/-- What object `i` owns is what its `SocketObject` says. -/
theorem owns_of_object {s : Sockets} {i : SocketId} {o : SocketObject}
    (hi : s.objects i = some o) : s.owns i = o.owned := by
  rw [owns, hi]
  rfl

/-- An object that is handed out owns what it owned. -/
theorem owns_deliver {s : Sockets} {i : SocketId} {o : SocketObject} (hi : s.objects i = some o) :
    (s.setObject i (some { o with delivered := true })).owns = s.owns := by
  have hsame : s.owns i = (some { o with delivered := true }).bind SocketObject.owned := by
    rw [owns_of_object hi]
    rfl
  rw [owns_setObject, update_owns_eq hsame]

/-- `close()` does nothing to an object that wraps no handle. -/
theorem closeHandle_none {s : Sockets} {i : SocketId} {o : SocketObject}
    (hsocket : o.socket = none) : s.closeHandle i o = s := by
  rw [closeHandle, hsocket]

/-- `close()` closes the handle that is wrapped. -/
theorem used_closeHandle {s : Sockets} {i : SocketId} {o : SocketObject} {h : Handle}
    (hsocket : o.socket = some h) : (s.closeHandle i o).used = s.used \ {h} := by
  ext h'
  by_cases heq : h' = h
  · subst heq
    simp [used, closeHandle, hsocket]
  · simp [used, closeHandle, hsocket, heq]

/-- After `close()` the object owns nothing. -/
theorem owns_closeHandle {s : Sockets} {i : SocketId} {o : SocketObject} {h : Handle}
    (hsocket : o.socket = some h) : (s.closeHandle i o).owns = Function.update s.owns i none := by
  rw [closeHandle, hsocket]
  exact owns_setObject s i (some { o with socket := some h, closed := true })

/-- `close()` keeps the process alive. -/
@[simp] theorem aborted_closeHandle (s : Sockets) (i : SocketId) (o : SocketObject) :
    (s.closeHandle i o).aborted = s.aborted := by
  rw [closeHandle]
  split <;> rfl

/-- A handle that is not open is not in use. -/
theorem notMem_used {s : Sockets} {h : Handle} (hh : s.os h = none) : h ∉ s.used := by
  simp [used, hh]

/-- At a free address nothing is owned. -/
theorem owns_eq_none {s : Sockets} {j : SocketId} (hj : s.objects j = none) :
    s.owns j = none := by
  simp [owns, hj]

/-- **A new socket owns the handle it got.** -/
theorem Lawful.obtain {s : Sockets} (hs : s.Lawful) {j : SocketId} {h : Handle} (os : OsSocket)
    (delivered : Bool) (hj : s.objects j = none) (hh : s.os h = none) :
    ((s.openHandle h os).setObject j (some { socket := some h, delivered })).Lawful where
  exclusive := by
    rw [used_setObject, used_openHandle, owns_setObject, owns_openHandle]
    exact hs.exclusive.acquire (notMem_used hh) (owns_eq_none hj)
  closedOnce := hs.closedOnce
  destroyable := hs.destroyable

/-- **`close()` keeps the law if and only if it is the first.** -/
theorem Lawful.close_iff {s : Sockets} (hs : s.Lawful) {i : SocketId} {o : SocketObject}
    (hi : s.objects i = some o) :
    (s.closeHandle i o).Lawful ↔ (!(o.closed && o.socket.isSome)) = true := by
  cases hsocket : o.socket with
  | none =>
      rw [closeHandle_none hsocket]
      exact iff_of_true hs (by simp)
  | some h =>
      have hforeign : (s.closeHandle i o).foreignCloses = o.closed.toNat := by
        simp only [closeHandle, hsocket]
        rw [hs.closedOnce, Nat.zero_add]
      cases hclosed : o.closed with
      | true =>
          rw [hclosed] at hforeign
          refine iff_of_false (fun ht => ?_) (by simp)
          rw [ht.closedOnce] at hforeign
          exact absurd hforeign Nat.zero_ne_one
      | false =>
          rw [hclosed] at hforeign
          have howns : s.owns i = some h := by
            rw [owns_of_object hi, SocketObject.owned, hclosed, hsocket]
            rfl
          refine iff_of_true ⟨?_, hforeign, ?_⟩ (by simp)
          · rw [used_closeHandle hsocket, owns_closeHandle hsocket]
            exact hs.exclusive.release howns
          · rw [aborted_closeHandle]
            exact hs.destroyable

/-- An object that has closed its handle, or has none, can go. -/
theorem setObject_none_lawful_iff {s : Sockets} {i : SocketId} (howns : s.owns i = none) :
    (s.setObject i none).Lawful ↔ s.Lawful := by
  have heq : (s.setObject i none).owns = s.owns := by
    rw [owns_setObject]
    exact update_owns_eq howns
  constructor
  · rintro ⟨hexclusive, hclosed, hdestroyable⟩
    rw [heq] at hexclusive
    exact ⟨hexclusive, hclosed, hdestroyable⟩
  · rintro ⟨hexclusive, hclosed, hdestroyable⟩
    refine ⟨?_, hclosed, hdestroyable⟩
    rw [heq]
    exact hexclusive

/-- After `close()` object `i` owns nothing, whatever it wrapped. -/
theorem owns_closeHandle_self {s : Sockets} {i : SocketId} {o : SocketObject}
    (hi : s.objects i = some o) : (s.closeHandle i o).owns i = none := by
  cases hsocket : o.socket with
  | none => rw [closeHandle_none hsocket, owns_of_object hi, SocketObject.owned, hsocket, ite_self]
  | some h => rw [owns_closeHandle hsocket, Function.update_self]

/-- The end of the process leaves the handles to their owners. -/
theorem Lawful.abort {s : Sockets} (hs : s.Lawful) {reason : SocketAbort}
    (hreason : reason ≠ .destroyed true) : (s.abort reason).Lawful where
  exclusive := hs.exclusive
  closedOnce := hs.closedOnce
  destroyable := fun h => hreason (Option.some.inj h)

/-- **One step keeps the law if and only if it is orderly.** -/
theorem Changes.lawful_iff {b : Backend} {this : ServicePtr} {s t : Sockets} {l : SocketLabel}
    (h : Changes b this s l t) (hs : s.Lawful) : t.Lawful ↔ s.orderly l = true := by
  cases h with
  | idle hl hcloses hout => exact iff_of_true hs hl
  | obtains j h os delivered hl hcloses hj hh hkey =>
      exact iff_of_true (hs.obtain os delivered hj hh) hl
  | leaks hh =>
      refine iff_of_false (fun ht => ?_) Bool.false_ne_true
      have hexclusive := ht.exclusive
      rw [used_openHandle, owns_openHandle] at hexclusive
      exact hs.exclusive.not_leak (notMem_used hh) hexclusive
  | @delivers j o hj =>
      refine iff_of_true ⟨?_, hs.closedOnce, hs.destroyable⟩ rfl
      rw [owns_deliver hj]
      exact hs.exclusive
  | closes hi =>
      rw [hs.close_iff hi, orderly, hi]
      rfl
  | deallocs hi =>
      rw [setObject_none_lawful_iff (owns_closeHandle_self hi), hs.close_iff hi, orderly, hi]
      rfl
  | aborts reason hl hcloses hout hreason => exact iff_of_true (hs.abort hreason) hl
  | abandons j h hb hl hj hh =>
      exact iff_of_true ((hs.obtain {} true hj hh).abort (by simp)) hl
  | destroys hb hi hsocket hclosed =>
      refine iff_of_false (fun ht => ht.destroyable rfl) ?_
      simp [orderly, hi, hclosed, hsocket]

/-- At the start no handle is open. -/
theorem lawful_init (b : Backend) (this : ServicePtr) : (sockets b this).init.Lawful where
  exclusive := by
    have hused : ({} : Sockets).used = ∅ := by
      ext h
      simp [used]
    rw [sockets, hused]
    exact Ownership.exclusive_empty
  closedOnce := rfl
  destroyable := by simp [sockets]

end Sockets

/-! ### The law of handles -/

/-- **Every open handle has exactly one owner and is closed by it alone**, on both backends and
along every run in which no socket is closed or destroyed after it has closed its handle and
`accept` finds memory for the handles it gets. A step that does otherwise breaks the law. -/
theorem sockets_lawful_iff (b : Backend) (this : ServicePtr) (s : Sockets)
    (hrun : (sockets b this).RunWhere (fun s l => s.orderly l = true) (sockets b this).init s) :
    s.Lawful ∧ ∀ l t, (sockets b this).step s l = some t →
      (t.Lawful ↔ s.orderly l = true) := by
  have hs : s.Lawful := hrun.invariant (Sockets.lawful_init b this)
    fun s l t hs hl hstep => ((Sockets.changes_of_step hstep).lawful_iff hs).mpr hl
  exact ⟨hs, fun l t hstep => (Sockets.changes_of_step hstep).lawful_iff hs⟩

/-- A service at address 1. -/
def servicePtr : ServicePtr := ⟨1, Nat.one_ne_zero⟩

/-- A listening socket and a connection it accepted. -/
def acceptsOnce : List SocketLabel := [.createSocket 0 true (some 4) true, .accept 0 1 (.ok 5) true]

/-- A listening socket and its connection are lawful. -/
theorem sockets_lawful_accept :
    ∃ s : Sockets, s.owns 0 = some 4 ∧ s.owns 1 = some 5 ∧ s.Lawful := by
  obtain ⟨s, hrun, h0, h1⟩ := Machine.exists_runWhere (M := sockets .win32 servicePtr)
    (G := fun s l => s.orderly l = true) (s := (sockets .win32 servicePtr).init)
    (P := fun s => s.owns 0 = some 4 ∧ s.owns 1 = some 5) acceptsOnce (by decide)
  exact ⟨s, h0, h1, (sockets_lawful_iff .win32 servicePtr s hrun).1⟩

/-- A socket is closed, its handle value goes to another socket, and it is destroyed. -/
def closesTwice : List SocketLabel :=
  [.createSocket 0 true (some 4) true, .close 0, .createSocket 1 true (some 4) true, .dealloc 0]

/-- A socket is closed and destroyed. -/
def destroysClosed : List SocketLabel :=
  [.createSocket 0 true (some 4) true, .close 0, .dealloc 0]

/-- **A socket that is closed and then destroyed** breaks the law: `~Win32Socket` closes a handle
that belongs to another socket by now, and `~UnixSocket` terminates. -/
theorem closed_twice :
    (¬∀ s, (sockets .win32 servicePtr).Reachable s → s.Lawful) ∧
      ¬∀ s, (sockets .unix servicePtr).Reachable s → s.Lawful := by
  constructor
  · intro h
    obtain ⟨s, hrun, howns, hos⟩ := Machine.exists_runWhere (M := sockets .win32 servicePtr)
      (G := fun _ _ => True) (s := (sockets .win32 servicePtr).init)
      (P := fun s => s.owns 1 = some 4 ∧ s.os 4 = none) closesTwice (by decide)
    exact Sockets.notMem_used hos ((h s hrun).exclusive.used 1 4 howns)
  · intro h
    obtain ⟨s, hrun, hab⟩ := Machine.exists_runWhere (M := sockets .unix servicePtr)
      (G := fun _ _ => True) (s := (sockets .unix servicePtr).init)
      (P := fun s => s.aborted = some (.destroyed true)) destroysClosed (by decide)
    exact (h s hrun).destroyable hab

end Netknot
