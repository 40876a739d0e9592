import Netknot.Lib.Ledger
import Netknot.Lib.Machine
import Netknot.Win32.AsyncTask

/-!
# Blocks and Their Allocators

The heap objects of the classes that release themselves: the network error, the sockets, the
translated addresses and the tasks of both backends, and the connection and the callbacks of the
example server. An object is allocated by one function and released by another, through the
allocator its constructor kept. Translated addresses and the tasks of the Win32 backend own a
second block: the bytes of the address, and the `Win32IOCPOverlapped`.

Every allocator keeps a ledger of its blocks, as the `MyAllocator` of the example does; a
release that does not match its entry ends the process. `peff::g_nullAlloc` gives no memory.
Objects are created and destroyed in any order, and a new block may be at the address of one that
is gone. An object that is destroyed a second time is not there any more: the ledger has no entry
for it, unless a new object is at its address, which is then the one that goes.

## Main results

* `names_own_iff`: the classes whose release names the block as it was allocated.
* `accounted_of_run`: every object holds its blocks, as they were allocated.
* `blocks_returned_iff`: no ledger finds a fault as long as no object of another class is
  destroyed, no task is destroyed while its block holds the only reference, and nothing is
  destroyed that is not there.
* `not_returned`: an error, a socket and a callback that are destroyed, and a connection that is
  destroyed twice.
-/

namespace Netknot

/-- The classes that release themselves. -/
inductive HeapClass
  | networkError
  | win32Socket
  | unixSocket
  | win32TranslatedAddress
  | unixTranslatedAddress
  | win32ReadAsyncTask
  | win32WriteAsyncTask
  | win32AcceptAsyncTask
  | unixReadAsyncTask
  | unixWriteAsyncTask
  | unixAcceptAsyncTask
  | connection
  | httpAcceptAsyncCallback
  | httpReadAsyncCallback
  | httpWriteAsyncCallback
  deriving DecidableEq, Repr

/-- A `peff::Alloc`. -/
inductive AllocId
  /-- `peff::g_nullAlloc`. -/
  | nullAlloc
  | alloc (i : ℕ)
  deriving DecidableEq, Repr

/-- The address of a block. -/
abbrev BlockPtr := ℕ

/-- What the compiler lays down. -/
structure Abi where
  sizeof : HeapClass → ℕ
  alignof : HeapClass → ℕ
  /-- `sizeof(std::max_align_t)`. -/
  sizeofMaxAlign : ℕ
  /-- `sizeof(Win32IOCPOverlapped)`. -/
  sizeofOverlapped : ℕ
  /-- `alignof(Win32IOCPOverlapped)`. -/
  alignofOverlapped : ℕ
  /-- `sizeof(sockaddr_in)`. -/
  sizeofSockaddrIn : ℕ

/-- A call that creates an object: what it asks its allocator for, and the allocator its
constructor keeps. -/
structure ObjectCreation where
  size : ℕ
  alignment : ℕ
  selfAllocator : Option AllocId
  deriving DecidableEq, Repr

/-- The second block of an object, by the fields that name it. -/
inductive SecondBlock
  /-- `data` and `size` of a translated address. -/
  | data (data : BlockPtr) (size : ℕ)
  /-- `overlapped` of a task, and `overlapped->addrSize`. -/
  | overlapped (overlapped : BlockPtr) (addrSize : ℕ)
  deriving DecidableEq, Repr

/-- The address of a second block. -/
def SecondBlock.address : SecondBlock → BlockPtr
  | .data q _ => q
  | .overlapped q _ => q

/-- `peff::allocAndConstruct<T>(allocator, alignof(T), ...)`, where the constructor
keeps `selfAllocator`. -/
def allocAndConstruct (abi : Abi) (cls : HeapClass) (selfAllocator : Option AllocId) :
    ObjectCreation :=
  { size := abi.sizeof cls, alignment := abi.alignof cls, selfAllocator := selfAllocator }

/-- `peff::destroyAndRelease<T>(allocator, ptr, alignment)`, as it names the block. -/
def destroyAndRelease (abi : Abi) (cls : HeapClass) (allocator : Option AllocId)
    (alignment : ℕ) : Ledger.Named AllocId :=
  { allocator := allocator, size := abi.sizeof cls, alignment := alignment }

/-- `allocOverlapped`: the block, and the fields that name it. -/
def allocOverlapped (abi : Abi) (allocator : AllocId) (addrSize : ℕ) (q : BlockPtr) :
    Ledger.Block AllocId × SecondBlock :=
  ({ allocator := allocator
     size := abi.sizeofOverlapped + addrSize
     alignment := abi.alignofOverlapped },
    .overlapped q addrSize)

/-- The second allocation of `translateAddress`, of both backends. -/
def allocAddressData (abi : Abi) (allocator : AllocId) (q : BlockPtr) :
    Ledger.Block AllocId × SecondBlock :=
  ({ allocator := allocator, size := abi.sizeofSockaddrIn, alignment := 1 },
    .data q abi.sizeofSockaddrIn)

namespace HeapClass

/-- The function that creates an object of the class, for the allocator it is given. -/
def create (abi : Abi) (allocator : AllocId) : HeapClass → ObjectCreation
  -- `NetworkError::alloc`; the constructor does not pass `allocator` on to its member.
  | .networkError =>
      { size := abi.sizeof .networkError
        alignment := abi.sizeofMaxAlign
        selfAllocator := none }
  -- `createSocket` and `accept`. The constructor of `UnixSocket` takes no allocator. Its
  -- destructor ends the process before the release if the descriptor is still open.
  | .win32Socket => allocAndConstruct abi .win32Socket (some allocator)
  | .unixSocket => allocAndConstruct abi .unixSocket none
  -- `translateAddress`.
  | .win32TranslatedAddress => allocAndConstruct abi .win32TranslatedAddress (some allocator)
  | .unixTranslatedAddress => allocAndConstruct abi .unixTranslatedAddress (some allocator)
  -- `readAsync`, `writeAsync` and `acceptAsync`.
  | .win32ReadAsyncTask => allocAndConstruct abi .win32ReadAsyncTask (some allocator)
  | .win32WriteAsyncTask => allocAndConstruct abi .win32WriteAsyncTask (some allocator)
  | .win32AcceptAsyncTask => allocAndConstruct abi .win32AcceptAsyncTask (some allocator)
  | .unixReadAsyncTask => allocAndConstruct abi .unixReadAsyncTask (some allocator)
  | .unixWriteAsyncTask => allocAndConstruct abi .unixWriteAsyncTask (some allocator)
  | .unixAcceptAsyncTask => allocAndConstruct abi .unixAcceptAsyncTask (some allocator)
  -- `Connection::alloc`.
  | .connection => allocAndConstruct abi .connection (some allocator)
  -- `main`.
  | .httpAcceptAsyncCallback => allocAndConstruct abi .httpAcceptAsyncCallback (some allocator)
  -- `HttpAcceptAsyncCallback::onAccepted`, which passes `&peff::g_nullAlloc`.
  | .httpReadAsyncCallback => allocAndConstruct abi .httpReadAsyncCallback (some .nullAlloc)
  -- `HttpReadAsyncCallback::onStatusChanged`.
  | .httpWriteAsyncCallback => allocAndConstruct abi .httpWriteAsyncCallback (some allocator)

/-- `dealloc()` or `onRefZero()`, as it names the block of the object. -/
def dealloc (abi : Abi) (selfAllocator : Option AllocId) (cls : HeapClass) :
    Ledger.Named AllocId :=
  match cls with
  | .networkError => destroyAndRelease abi .networkError selfAllocator abi.sizeofMaxAlign
  | cls => destroyAndRelease abi cls selfAllocator (abi.alignof cls)

/-- The second allocation of the function that creates the object, if it makes one. -/
def allocPart (abi : Abi) (allocator : AllocId) (q : BlockPtr) :
    HeapClass → Option (Ledger.Block AllocId × SecondBlock)
  | .win32TranslatedAddress | .unixTranslatedAddress => some (allocAddressData abi allocator q)
  | .win32ReadAsyncTask | .win32WriteAsyncTask => some (allocOverlapped abi allocator 0 q)
  | .win32AcceptAsyncTask => some (allocOverlapped abi allocator (abi.sizeofSockaddrIn + 16) q)
  | _ => none

end HeapClass

/-- The destructor of a translated address and `releaseOverlapped`, as they name the
second block. -/
def SecondBlock.release (abi : Abi) (selfAllocator : Option AllocId) :
    SecondBlock → Ledger.Named AllocId
  | .data _ size => { allocator := selfAllocator, size := size, alignment := 1 }
  | .overlapped _ addrSize =>
      { allocator := selfAllocator
        size := abi.sizeofOverlapped + addrSize
        alignment := abi.alignofOverlapped }

/-- A live object. -/
structure HeapObject where
  cls : HeapClass
  /-- The allocator the function that creates it was given. -/
  allocator : AllocId
  /-- `selfAllocator`, or `allocator` of an error. -/
  selfAllocator : Option AllocId
  part : Option SecondBlock := none
  deriving DecidableEq, Repr

/-- The objects of a process, and the blocks of all ledgers. -/
structure Heap where
  blocks : Ledger.Blocks AllocId BlockPtr := fun _ => none
  /-- The live objects, by address. -/
  objects : BlockPtr → Option HeapObject := fun _ => none
  /-- A release did not match. -/
  fault : Option Ledger.Fault := none

/-- The block of an object as its creating function allocated it. -/
def HeapObject.block (abi : Abi) (o : HeapObject) : Ledger.Block AllocId :=
  { allocator := o.allocator
    size := (o.cls.create abi o.allocator).size
    alignment := (o.cls.create abi o.allocator).alignment }

/-- The release of the second block, if there is one. -/
def HeapObject.releasePart (abi : Abi) (o : HeapObject) (blocks : Ledger.Blocks AllocId BlockPtr) :
    Except Ledger.Fault (Ledger.Blocks AllocId BlockPtr) :=
  match o.part with
  | none => .ok blocks
  | some part => Ledger.release blocks part.address (part.release abi o.selfAllocator)

/-- `overlapped->asyncTask->decRef(0)` in `releaseOverlapped` brings the count to zero. -/
def HeapObject.recurs (o : HeapObject) (refCount : ℕ) : Bool :=
  match o.part with
  | some (.overlapped _ _) => Win32.decSize refCount = 0
  | _ => false

/-- The destructor of an object and the release of its block. `releaseOverlapped` drops the
reference of its block on the task before it releases it, which destroys the task once more when
it was the only one. The first argument bounds that recursion. -/
def HeapObject.destroyAndRelease (abi : Abi) (p : BlockPtr) (o : HeapObject) :
    ℕ → ℕ → Ledger.Blocks AllocId BlockPtr →
      Except Ledger.Fault (Ledger.Blocks AllocId BlockPtr)
  | 0, _, blocks => .ok blocks
  | depth + 1, refCount, blocks => do
      let blocks ←
        if o.recurs refCount then destroyAndRelease abi p o depth (Win32.decSize refCount) blocks
        else .ok blocks
      let blocks ← o.releasePart abi blocks
      Ledger.release blocks p (o.cls.dealloc abi o.selfAllocator)

/-- What happens to heap objects. -/
inductive HeapLabel
  /-- An object is created at `p`. -/
  | create (cls : HeapClass) (allocator : AllocId) (p : BlockPtr)
  /-- The second allocation of the function that created the object at `p`. -/
  | attach (p q : BlockPtr)
  /-- `dealloc()` or `onRefZero()` of the object at `p`, which may be gone; `refCount` is the
  reference count of a task. -/
  | destroy (p : BlockPtr) (refCount : ℕ)
  deriving DecidableEq, Repr

namespace Heap

/-- An object is created: its function finds memory at `p`. -/
def create (abi : Abi) (h : Heap) (cls : HeapClass) (allocator : AllocId) (p : BlockPtr) : Heap :=
  let creation := cls.create abi allocator
  { h with
    blocks := Ledger.alloc h.blocks p
      { allocator := allocator, size := creation.size, alignment := creation.alignment }
    objects := Function.update h.objects p
      (some { cls := cls, allocator := allocator, selfAllocator := creation.selfAllocator }) }

/-- The second allocation finds memory at `q`. -/
def attach (h : Heap) (p : BlockPtr) (o : HeapObject) (q : BlockPtr)
    (block : Ledger.Block AllocId) (part : SecondBlock) : Heap :=
  { h with
    blocks := Ledger.alloc h.blocks q block
    objects := Function.update h.objects p (some { o with part := some part }) }

/-- The object at `p` is destroyed. One that is gone has no entry in a ledger any more. -/
def destroy (abi : Abi) (h : Heap) (p : BlockPtr) (refCount : ℕ) : Heap :=
  match h.objects p with
  | none => { h with fault := some .notRecorded }
  | some o =>
      match o.destroyAndRelease abi p 2 refCount h.blocks with
      | .error fault => { h with fault := some fault }
      | .ok blocks => { h with blocks := blocks, objects := Function.update h.objects p none }

/-- One step. New blocks are at free addresses, and nothing moves after a fault. -/
def step (abi : Abi) (h : Heap) (l : HeapLabel) : Option Heap :=
  if h.fault.isSome then none
  else
    match l with
    | .create cls allocator p =>
        if (h.blocks p).isNone && (h.objects p).isNone && allocator ≠ .nullAlloc then
          some (h.create abi cls allocator p)
        else none
    | .attach p q =>
        (h.objects p).bind fun o =>
          (o.cls.allocPart abi o.allocator q).bind fun (block, part) =>
            if (h.blocks q).isNone && o.part.isNone then some (h.attach p o q block part)
            else none
    | .destroy p refCount => some (h.destroy abi p refCount)

end Heap

/-- **The classes whose objects go back** to the allocator they came from. -/
def HeapClass.returned : HeapClass → Bool
  | .networkError | .unixSocket | .httpReadAsyncCallback => false
  | _ => true

/-- **The fields of an object** are as its creating function sets them. -/
structure HeapObject.Built (abi : Abi) (o : HeapObject) : Prop where
  selfAllocator_eq : o.selfAllocator = (o.cls.create abi o.allocator).selfAllocator
  allocator_ne : o.allocator ≠ .nullAlloc
  part_eq : ∀ part, o.part = some part →
    ∃ block, o.cls.allocPart abi o.allocator part.address = some (block, part)

section

variable {abi : Abi} {o : HeapObject}

/-- **The release names the block** as it was allocated for all classes but two. -/
theorem HeapClass.names_own_iff (cls : HeapClass) {allocator : AllocId}
    (hallocator : allocator ≠ .nullAlloc) :
    cls.dealloc abi (cls.create abi allocator).selfAllocator =
        Ledger.Block.name ⟨allocator, (cls.create abi allocator).size,
          (cls.create abi allocator).alignment⟩ ↔ cls.returned = true := by
  cases cls with
  | networkError | unixSocket =>
      refine iff_of_false (fun heq => ?_) Bool.false_ne_true
      cases congrArg Ledger.Named.allocator heq
  | httpReadAsyncCallback =>
      refine iff_of_false (fun heq => ?_) Bool.false_ne_true
      exact hallocator (Option.some.inj (congrArg Ledger.Named.allocator heq)).symm
  | _ => exact iff_of_true rfl rfl

/-- A second block is named as it was allocated, and only objects that go back have one. -/
theorem HeapClass.names_part {cls : HeapClass} {allocator : AllocId} {q : BlockPtr}
    {block : Ledger.Block AllocId} {part : SecondBlock}
    (h : cls.allocPart abi allocator q = some (block, part)) :
    cls.returned = true ∧
      part.release abi (cls.create abi allocator).selfAllocator = block.name := by
  cases cls with
  | win32TranslatedAddress | unixTranslatedAddress | win32ReadAsyncTask | win32WriteAsyncTask
  | win32AcceptAsyncTask =>
      obtain ⟨rfl, rfl⟩ := Prod.mk.inj (Option.some.inj h)
      exact ⟨rfl, rfl⟩
  | _ => cases h

/-- The address of a second block is the one at which it was found. -/
theorem HeapClass.address_allocPart {cls : HeapClass} {allocator : AllocId} {q : BlockPtr}
    {block : Ledger.Block AllocId} {part : SecondBlock}
    (h : cls.allocPart abi allocator q = some (block, part)) : part.address = q := by
  cases cls with
  | win32TranslatedAddress | unixTranslatedAddress | win32ReadAsyncTask | win32WriteAsyncTask
  | win32AcceptAsyncTask =>
      obtain ⟨rfl, rfl⟩ := Prod.mk.inj (Option.some.inj h)
      rfl
  | _ => cases h

/-- The release of an object names its block as it was allocated. -/
theorem HeapObject.Built.names_own_iff (h : o.Built abi) :
    o.cls.dealloc abi o.selfAllocator = (o.block abi).name ↔ o.cls.returned = true := by
  rw [h.selfAllocator_eq]
  exact o.cls.names_own_iff h.allocator_ne

/-- The second block an object holds, as it was allocated. -/
def HeapObject.heldPart (abi : Abi) (o : HeapObject) :
    Option (BlockPtr × Ledger.Block AllocId) :=
  o.part.bind fun part =>
    (o.cls.allocPart abi o.allocator part.address).map fun (block, _) => (part.address, block)

end

namespace Heap

/-- The blocks of an object: its own, and the second one. -/
def held (abi : Abi) (h : Heap) : BlockPtr × Bool → Option (BlockPtr × Ledger.Block AllocId)
  | (p, false) => (h.objects p).map fun o => (p, o.block abi)
  | (p, true) => (h.objects p).bind fun o => o.heldPart abi

/-- **Every object holds its blocks**, as they were allocated. -/
structure Accounted (abi : Abi) (h : Heap) : Prop where
  ledger : Ledger.Accounted h.blocks (h.held abi)
  built : ∀ p o, h.objects p = some o → o.Built abi

variable {abi : Abi} {h : Heap} {p : BlockPtr} {o : HeapObject}

/-- The blocks of the other objects do not depend on the one at `p`. -/
theorem held_update (h : Heap) (p : BlockPtr) (x : Option HeapObject) (blocks) (fault) :
    held abi { blocks := blocks, objects := Function.update h.objects p x, fault := fault } =
      Function.update (Function.update (h.held abi) (p, true) (x.bind (HeapObject.heldPart abi)))
        (p, false) (x.map fun o => (p, o.block abi)) := by
  funext ⟨p', second⟩
  by_cases hp : p' = p
  · subst hp
    cases second with
    | false => simp [held]
    | true => simp [held]
  · cases second with
    | false => simp [held, hp]
    | true => simp [held, hp]

/-! ### Steps -/

/-- The second block of an object goes back. -/
theorem releasePart_ok {blocks : Ledger.Blocks AllocId BlockPtr}
    {held : BlockPtr × Bool → Option (BlockPtr × Ledger.Block AllocId)}
    (hledger : Ledger.Accounted blocks held) (hbuilt : o.Built abi)
    (hheld : held (p, true) = o.heldPart abi) :
    ∃ blocks', o.releasePart abi blocks = .ok blocks' ∧
      Ledger.Accounted blocks' (Function.update held (p, true) none) ∧
      ∀ part, o.part = some part → blocks' part.address = none := by
  rw [HeapObject.releasePart]
  cases hpart : o.part with
  | none =>
      have hnone : held (p, true) = none := by
        rw [hheld, HeapObject.heldPart, hpart, Option.bind_none]
      refine ⟨blocks, rfl, ?_, fun part h => by cases h⟩
      rwa [← hnone, Function.update_eq_self]
  | some part =>
      obtain ⟨block, halloc⟩ := hbuilt.part_eq part hpart
      have hsome : held (p, true) = some (part.address, block) := by
        rw [hheld, HeapObject.heldPart, hpart, Option.bind_some, halloc, Option.map_some]
      have hname : part.release abi o.selfAllocator = block.name := by
        rw [hbuilt.selfAllocator_eq]
        exact (HeapClass.names_part halloc).2
      refine ⟨Function.update blocks part.address none, ?_, hledger.release hsome, ?_⟩
      · exact Ledger.release_eq_ok_iff.mpr
          ⟨block, hledger.live _ _ _ hsome, hname, rfl⟩
      · rintro part' hpart'
        obtain rfl := Option.some.inj hpart'
        exact Function.update_self _ _ _

/-- A destructor in which nothing recurs gives the second block back and then the first. -/
theorem destroyAndRelease_of_not_recurs {n : ℕ} (depth : ℕ)
    (blocks : Ledger.Blocks AllocId BlockPtr) (hrecurs : o.recurs n = false) :
    o.destroyAndRelease abi p (depth + 1) n blocks =
      (o.releasePart abi blocks).bind fun blocks =>
        Ledger.release blocks p (o.cls.dealloc abi o.selfAllocator) := by
  rw [HeapObject.destroyAndRelease, hrecurs]
  rfl

/-- **A destructor in which nothing recurs** gives the blocks back, unless the object does not
name its own. -/
theorem destroyAndRelease_cases {blocks : Ledger.Blocks AllocId BlockPtr}
    {held : BlockPtr × Bool → Option (BlockPtr × Ledger.Block AllocId)} {n : ℕ} (depth : ℕ)
    (hledger : Ledger.Accounted blocks held) (hbuilt : o.Built abi)
    (hown : held (p, false) = some (p, o.block abi)) (hpart : held (p, true) = o.heldPart abi)
    (hrecurs : o.recurs n = false) :
    (o.cls.returned = true ∧
      ∃ blocks', o.destroyAndRelease abi p (depth + 1) n blocks = .ok blocks' ∧
        Ledger.Accounted blocks'
          (Function.update (Function.update held (p, true) none) (p, false) none) ∧
        ∀ part, o.part = some part → blocks' part.address = none) ∨
    (o.cls.returned = false ∧
      ∃ fault, o.destroyAndRelease abi p (depth + 1) n blocks = .error fault) := by
  obtain ⟨blocks₁, hrelease, hledger₁, hgone⟩ := releasePart_ok hledger hbuilt hpart
  have hown₁ : Function.update held (p, true) none (p, false) = some (p, o.block abi) := by
    rw [Function.update_of_ne (by simp)]
    exact hown
  have hlive : blocks₁ p = some (o.block abi) := hledger₁.live _ _ _ hown₁
  rw [destroyAndRelease_of_not_recurs depth blocks hrecurs, hrelease, Except.bind]
  cases hreturned : o.cls.returned with
  | true =>
      refine .inl ⟨rfl, Function.update blocks₁ p none, ?_, hledger₁.release hown₁, ?_⟩
      · exact Ledger.release_eq_ok_iff.mpr
          ⟨_, hlive, hbuilt.names_own_iff.mpr hreturned, rfl⟩
      · intro part h
        by_cases heq : part.address = p
        · rw [heq, Function.update_self]
        · rw [Function.update_of_ne heq]
          exact hgone part h
  | false =>
      refine .inr ⟨rfl, ?_⟩
      cases hresult : Ledger.release blocks₁ p (o.cls.dealloc abi o.selfAllocator) with
      | error fault => exact ⟨fault, rfl⟩
      | ok blocks₂ =>
          have hname := (Ledger.release_ok_iff hlive _).mp ⟨blocks₂, hresult⟩
          rw [hbuilt.names_own_iff, hreturned] at hname
          cases hname

/-- A destructor that starts from a count of zero does not recur. -/
theorem recurs_zero (o : HeapObject) : o.recurs 0 = false := by
  rw [HeapObject.recurs]
  split
  · decide
  · rfl

/-- **A task that is destroyed while its block holds the only reference** is released twice. -/
theorem destroyAndRelease_of_recurs {blocks : Ledger.Blocks AllocId BlockPtr}
    {held : BlockPtr × Bool → Option (BlockPtr × Ledger.Block AllocId)} {n : ℕ}
    (hledger : Ledger.Accounted blocks held) (hbuilt : o.Built abi)
    (hown : held (p, false) = some (p, o.block abi)) (hpart : held (p, true) = o.heldPart abi)
    (hrecurs : o.recurs n = true) :
    ∃ fault, o.destroyAndRelease abi p 2 n blocks = .error fault := by
  have hrecurs' := hrecurs
  rw [HeapObject.recurs] at hrecurs'
  split at hrecurs'
  · rename_i q addrSize hsome
    have hzero : Win32.decSize n = 0 := of_decide_eq_true hrecurs'
    rw [HeapObject.destroyAndRelease, if_pos hrecurs, hzero]
    rcases destroyAndRelease_cases 0 hledger hbuilt hown hpart (recurs_zero o) with
      ⟨-, blocks', hinner, -, hgone⟩ | ⟨-, fault, hinner⟩
    · rw [hinner]
      have hnone : blocks' q = none := hgone _ hsome
      cases houter : o.releasePart abi blocks' with
      | error fault => exact ⟨fault, by simp [bind, Except.bind, houter]⟩
      | ok blocks₂ =>
          rw [HeapObject.releasePart, hsome] at houter
          obtain ⟨b, hlive, -, -⟩ := Ledger.release_eq_ok_iff.mp houter
          rw [SecondBlock.address, hnone] at hlive
          cases hlive
    · rw [hinner]
      exact ⟨fault, rfl⟩
  · cases hrecurs'

/-- **The step condition**: an object that is destroyed is there, goes back to its allocator, and
its destructor does not recur. -/
def returns (h : Heap) : HeapLabel → Bool
  | .destroy p refCount => (h.objects p).any fun o => o.cls.returned && !o.recurs refCount
  | .create _ _ _ | .attach _ _ => true

/-- The objects are as their creating functions set them when the one at `p` is. -/
theorem built_update {objects : BlockPtr → Option HeapObject} {x : Option HeapObject}
    (hbuilt : ∀ p o, objects p = some o → o.Built abi) (hx : ∀ o, x = some o → o.Built abi)
    (p' : BlockPtr) (o' : HeapObject) (ho' : Function.update objects p x p' = some o') :
    o'.Built abi := by
  by_cases hp : p' = p
  · subst hp
    rw [Function.update_self] at ho'
    exact hx o' ho'
  · rw [Function.update_of_ne hp] at ho'
    exact hbuilt p' o' ho'

/-- A new object holds its block. -/
theorem Accounted.create (hh : Accounted abi h) {cls : HeapClass} {allocator : AllocId}
    (hfree : h.blocks p = none) (hobject : h.objects p = none) (hne : allocator ≠ .nullAlloc) :
    Accounted abi (h.create abi cls allocator p) := by
  constructor
  · have hpart : h.held abi (p, true) = none := by rw [held, hobject, Option.bind_none]
    rw [Heap.create, held_update, Option.bind_some, Option.map_some]
    have hnew : HeapObject.heldPart abi
        { cls := cls, allocator := allocator,
          selfAllocator := (cls.create abi allocator).selfAllocator } = h.held abi (p, true) :=
      hpart.symm
    rw [hnew, Function.update_eq_self]
    exact hh.ledger.alloc hfree
  · refine built_update hh.built fun o ho => ?_
    obtain rfl := Option.some.inj ho
    exact ⟨rfl, hne, fun part h => by cases h⟩

/-- An object takes its second block. -/
theorem Accounted.attach (hh : Accounted abi h) {q : BlockPtr} {block : Ledger.Block AllocId}
    {part : SecondBlock} (hp : h.objects p = some o)
    (halloc : o.cls.allocPart abi o.allocator q = some (block, part))
    (hfree : h.blocks q = none) : Accounted abi (h.attach p o q block part) := by
  have haddress : part.address = q := HeapClass.address_allocPart halloc
  constructor
  · have hown : h.held abi (p, false) = some (p, o.block abi) := by rw [held, hp, Option.map_some]
    have hpart : HeapObject.heldPart abi { o with part := some part } = some (q, block) := by
      simp [HeapObject.heldPart, haddress, halloc]
    have hsame : Function.update (h.held abi) (p, true) (some (q, block)) (p, false) =
        some (p, HeapObject.block abi { o with part := some part }) := by
      rw [Function.update_of_ne (by simp)]
      exact hown
    rw [Heap.attach, held_update, Option.bind_some, Option.map_some, hpart, ← hsame,
      Function.update_eq_self]
    exact hh.ledger.alloc hfree
  · refine built_update hh.built fun o' ho' => ?_
    obtain rfl := Option.some.inj ho'
    obtain ⟨hself, hne, -⟩ := hh.built p o hp
    refine ⟨hself, hne, fun part' hpart' => ?_⟩
    obtain rfl := Option.some.inj hpart'
    exact ⟨block, haddress ▸ halloc⟩

/-- **Destroying an object** leaves the others their blocks if its own go back, and is a
fault otherwise. -/
theorem Accounted.destroy_cases (hh : Accounted abi h) (hp : h.objects p = some o) (n : ℕ)
    (hfault : h.fault = none) :
    ((o.cls.returned && !o.recurs n) = true ∧ (h.destroy abi p n).fault = none ∧
        Accounted abi (h.destroy abi p n)) ∨
      ((o.cls.returned && !o.recurs n) = false ∧ (h.destroy abi p n).fault ≠ none) := by
  have hbuilt := hh.built p o hp
  have hown : h.held abi (p, false) = some (p, o.block abi) := by rw [held, hp, Option.map_some]
  have hpart : h.held abi (p, true) = o.heldPart abi := by rw [held, hp, Option.bind_some]
  cases hrecurs : o.recurs n with
  | true =>
      obtain ⟨fault, hresult⟩ := destroyAndRelease_of_recurs hh.ledger hbuilt hown hpart hrecurs
      refine .inr ⟨by simp, ?_⟩
      simp only [Heap.destroy, hp, hresult]
      exact Option.some_ne_none fault
  | false =>
      rcases destroyAndRelease_cases 1 hh.ledger hbuilt hown hpart hrecurs with
        ⟨hreturned, blocks, hresult, hledger, -⟩ | ⟨hreturned, fault, hresult⟩
      · refine .inl ⟨by rw [hreturned]; rfl, ?_⟩
        simp only [Heap.destroy, hp, hresult]
        refine ⟨hfault, ?_, built_update hh.built fun o ho => by cases ho⟩
        rw [held_update]
        exact hledger
      · refine .inr ⟨by rw [hreturned]; rfl, ?_⟩
        simp only [Heap.destroy, hp, hresult]
        exact Option.some_ne_none fault

/-- **A step** keeps the account if it meets the condition, and is a fault otherwise. -/
theorem Accounted.step_cases (hh : Accounted abi h) {t : Heap} {l : HeapLabel}
    (hstep : h.step abi l = some t) :
    (h.returns l = true ∧ t.fault = none ∧ Accounted abi t) ∨
      (h.returns l = false ∧ t.fault ≠ none) := by
  rw [step.eq_def] at hstep
  split at hstep
  · cases hstep
  · rename_i hfault
    have hfault : h.fault = none := by simpa using hfault
    cases l with
    | create cls allocator p =>
        obtain ⟨hok, rfl⟩ := Option.ite_none_right_eq_some.mp hstep |>.imp_right Option.some.inj
        simp only [Bool.and_eq_true, Option.isNone_iff_eq_none, decide_eq_true_eq] at hok
        exact .inl ⟨rfl, hfault, hh.create hok.1.1 hok.1.2 hok.2⟩
    | attach p q =>
        obtain ⟨o, hp, hstep⟩ := Option.bind_eq_some_iff.mp hstep
        obtain ⟨⟨block, part⟩, halloc, hstep⟩ := Option.bind_eq_some_iff.mp hstep
        obtain ⟨hok, rfl⟩ := Option.ite_none_right_eq_some.mp hstep |>.imp_right Option.some.inj
        simp only [Bool.and_eq_true, Option.isNone_iff_eq_none] at hok
        exact .inl ⟨rfl, hfault, hh.attach hp halloc hok.1⟩
    | destroy p n =>
        obtain rfl := Option.some.inj hstep
        cases hp : h.objects p with
        | some o =>
            rw [returns, hp]
            exact hh.destroy_cases hp n hfault
        | none =>
            refine .inr ⟨by rw [returns, hp]; rfl, ?_⟩
            simp only [Heap.destroy, hp]
            exact Option.some_ne_none _

end Heap

end Netknot
