import Netknot.Address
import Netknot.RcBuffer
import Netknot.Win32.Submit

/-!
# The Memory an Operation Hands to the Kernel

An asynchronous operation of the Win32 backend describes its memory to the kernel in the
`Win32IOCPOverlapped` that `allocOverlapped` builds: a read or a write by the `WSABUF` in it,
an accept by the area behind it.

`allocOverlapped` computes the length of the `WSABUF` from the size of the buffer and the
offset of the window; the size of the window does not enter it. `acceptAsync` reserves the
size of one address, and tells `AcceptEx` that both the local and the remote one may fill it.

## Main results

* `eq_transfer_of_submitTransfer`: the memory a `WSABUF` describes.
* `confined_iff`: when the kernel stays in the memory of an operation.
* `endsWithBuffer_whole`, `not_endsWithBuffer_window`: the references the constructors build.
-/

namespace Netknot.Win32

variable {w : ℕ}

/-- `ULONG_MAX`. -/
def ULONG_MAX : ℕ := 4294967295

/-- `WSABUF`: a length, which is a `ULONG`, and an address. -/
structure WSABUF where
  len : BitVec 32 := 0
  buf : ℕ := 0
  deriving DecidableEq, Repr

/-- `Win32IOCPOverlapped`: the fields that describe memory. -/
structure Win32IOCPOverlapped (w : ℕ) where
  buf : WSABUF := {}
  /-- The bytes reserved behind the structure. -/
  addrSize : ℕ
  rcBuffer : Option (RcBuffer w) := none
  deriving DecidableEq, Repr

/-- `allocOverlapped`; `ok` is the outcome of the allocation. -/
def allocOverlapped (ok : Bool) (addrSize : ℕ) (buffer : RcBufferRef w) :
    Option (Win32IOCPOverlapped w) :=
  if !ok then none
  else
    match buffer.buffer with
    | none => some { addrSize := addrSize }
    | some rcBuffer => some
        { buf :=
            { len := (rcBuffer.size - buffer.offset).setWidth 32
              buf := rcBuffer.data + buffer.offset.toNat }
          addrSize := addrSize
          rcBuffer := some rcBuffer }

/-- `Win32ReadAsyncTask::getExpectedReadSize`, with the `bufferRef` of the task. -/
def Win32ReadAsyncTask.getExpectedReadSize (bufferRef : RcBufferRef w) : BitVec w :=
  bufferRef.size

/-- `Win32WriteAsyncTask::getExpectedWrittenSize`. -/
def Win32WriteAsyncTask.getExpectedWrittenSize (bufferRef : RcBufferRef w) : BitVec w :=
  bufferRef.size

/-- The memory a kernel call is given. -/
inductive KernelMemory
  /-- `WSARecv` and `WSASend`: one `WSABUF`. -/
  | transfer (buf : WSABUF)
  /-- `AcceptEx`: an area of so many reserved bytes, and the lengths of its three parts. -/
  | acceptEx (reserved : ℕ) (dwReceiveDataLength dwLocalAddressLength : BitVec 32)
      (dwRemoteAddressLength : BitVec 32)
  deriving DecidableEq, Repr

/-- The asynchronous operations. -/
inductive Operation (w : ℕ)
  | read (buffer : RcBufferRef w)
  | write (buffer : RcBufferRef w)
  | accept (addressFamily : UUID)
  deriving DecidableEq, Repr

section

/- `ok` says which of the allocations before the kernel call succeed. The result `none` is a
call that does not get as far as the kernel. -/
variable (ok : FailPoint → Bool)

/-- `readAsync` and `writeAsync` up to the kernel call. -/
def submitTransfer (buffer : RcBufferRef w) : Option KernelMemory :=
  match buffer.buffer with
  | none => none
  | some rcBuffer =>
      if rcBuffer.size.toNat > ULONG_MAX then none
      else if !ok .allocTask then none
      else (allocOverlapped (ok .allocOverlapped) 0 buffer).map fun overlapped =>
        .transfer overlapped.buf

/-- `Win32Socket::readAsync` up to `WSARecv`. -/
def Win32Socket.readAsync (buffer : RcBufferRef w) : Option KernelMemory :=
  submitTransfer ok buffer

/-- `Win32Socket::writeAsync` up to `WSASend`. -/
def Win32Socket.writeAsync (buffer : RcBufferRef w) : Option KernelMemory :=
  submitTransfer ok buffer

/-- The size `translateAddress` gives for a family when it is asked for no address. -/
def compiledAddrSize (addressFamily : UUID) : Option ℕ :=
  (Win32IOService.translateAddress .little (fun _ => false)
    { addressFamily := addressFamily } false).bind (·.compiledAddressSizeOut)

/-- `Win32Socket::acceptAsync` up to `AcceptEx`, on a socket of the given family. -/
def Win32Socket.acceptAsync (w : ℕ) (addressFamily : UUID) : Option KernelMemory :=
  if !ok .allocTask then none
  else if !ok .createSocket then none
  else
    (compiledAddrSize addressFamily).bind fun compiledAddrSize =>
      let compiledAddrSize := compiledAddrSize + 16
      (allocOverlapped (ok .allocOverlapped) compiledAddrSize ({} : RcBufferRef w)).map
        fun overlapped =>
          .acceptEx overlapped.addrSize 0 (.ofNat 32 overlapped.addrSize)
            (.ofNat 32 overlapped.addrSize)

/-- An operation up to its kernel call. -/
def Operation.issue : Operation w → Option KernelMemory
  | .read buffer => Win32Socket.readAsync ok buffer
  | .write buffer => Win32Socket.writeAsync ok buffer
  | .accept addressFamily => Win32Socket.acceptAsync ok w addressFamily

end

/-- The window of an operation is inside its buffer. -/
def Operation.InBuffer : Operation w → Prop
  | .read buffer | .write buffer =>
      ∃ rcBuffer, buffer.buffer = some rcBuffer ∧
        RcBufferRef.Fits rcBuffer buffer.offset buffer.size
  | .accept _ => True

/-- A `WSABUF` describes **exactly the window** of a reference: its address and its length,
so that no transfer is longer than the size the task expects. -/
def WSABUF.IsWindow (buf : WSABUF) (buffer : RcBufferRef w) (expected : BitVec w) : Prop :=
  ∃ rcBuffer, buffer.buffer = some rcBuffer ∧
    buf.buf = rcBuffer.data + buffer.offset.toNat ∧ buf.len.toNat = buffer.size.toNat ∧
    ∀ szTransferred ≤ buf.len.toNat, szTransferred ≤ expected.toNat

/-- **The kernel stays in the memory** that was reserved for the operation. -/
def Operation.Confined : Operation w → KernelMemory → Prop
  | .read buffer, .transfer buf =>
      buf.IsWindow buffer (Win32ReadAsyncTask.getExpectedReadSize buffer)
  | .write buffer, .transfer buf =>
      buf.IsWindow buffer (Win32WriteAsyncTask.getExpectedWrittenSize buffer)
  | .accept _, .acceptEx reserved dwReceiveDataLength dwLocalAddressLength
      dwRemoteAddressLength =>
      dwReceiveDataLength.toNat + dwLocalAddressLength.toNat + dwRemoteAddressLength.toNat ≤
        reserved
  | _, _ => False

/-- The window of a read or a write **ends where its buffer ends**. -/
def Operation.EndsWithBuffer : Operation w → Prop
  | .read buffer | .write buffer =>
      ∃ rcBuffer, buffer.buffer = some rcBuffer ∧
        buffer.offset.toNat + buffer.size.toNat = rcBuffer.size.toNat
  | .accept _ => False

/-- **A `WSABUF` describes the memory** from the offset of the window to the end of the buffer. -/
theorem eq_transfer_of_submitTransfer {ok : FailPoint → Bool} {buffer : RcBufferRef w}
    {rcBuffer : RcBuffer w} {memory : KernelMemory} (hbuffer : buffer.buffer = some rcBuffer)
    (hfits : RcBufferRef.Fits rcBuffer buffer.offset buffer.size)
    (h : submitTransfer ok buffer = some memory) :
    ∃ buf, memory = .transfer buf ∧ buf.buf = rcBuffer.data + buffer.offset.toNat ∧
      buf.len.toNat = rcBuffer.size.toNat - buffer.offset.toNat := by
  rw [submitTransfer, hbuffer] at h
  dsimp only at h
  by_cases hsize : rcBuffer.size.toNat > ULONG_MAX
  · rw [if_pos hsize] at h
    cases h
  · rw [if_neg hsize] at h
    cases htask : ok .allocTask with
    | false => simp [htask] at h
    | true =>
        cases hoverlapped : ok .allocOverlapped with
        | false => simp [htask, hoverlapped, allocOverlapped] at h
        | true =>
            simp only [htask, hoverlapped, allocOverlapped, hbuffer, Bool.not_true,
              Bool.false_eq_true, if_false, Option.map_some, Option.some.injEq] at h
            refine ⟨_, h.symm, rfl, ?_⟩
            rw [RcBufferRef.Fits] at hfits
            rw [BitVec.toNat_setWidth, BitVec.toNat_sub_of_le (by rw [BitVec.le_def]; omega),
              Nat.mod_eq_of_lt]
            rw [ULONG_MAX] at hsize
            omega

/-- **A read or a write is confined** if and only if its window ends with the buffer. -/
theorem isWindow_iff {ok : FailPoint → Bool} {buffer : RcBufferRef w} {buf : WSABUF}
    (hfits : ∃ rcBuffer, buffer.buffer = some rcBuffer ∧
      RcBufferRef.Fits rcBuffer buffer.offset buffer.size)
    (h : submitTransfer ok buffer = some (.transfer buf)) :
    buf.IsWindow buffer buffer.size ↔
      ∃ rcBuffer, buffer.buffer = some rcBuffer ∧
        buffer.offset.toNat + buffer.size.toNat = rcBuffer.size.toNat := by
  obtain ⟨rcBuffer, hbuffer, hfits⟩ := hfits
  obtain ⟨buf', heq, haddr, hlen⟩ := eq_transfer_of_submitTransfer hbuffer hfits h
  obtain rfl := KernelMemory.transfer.inj heq
  rw [RcBufferRef.Fits] at hfits
  constructor
  · rintro ⟨rcBuffer', hbuffer', -, hsize, -⟩
    obtain rfl := Option.some.inj (hbuffer.symm.trans hbuffer')
    exact ⟨rcBuffer, hbuffer, by omega⟩
  · rintro ⟨rcBuffer', hbuffer', hends⟩
    obtain rfl := Option.some.inj (hbuffer.symm.trans hbuffer')
    have hsize : buf.len.toNat = buffer.size.toNat := by omega
    exact ⟨rcBuffer, hbuffer, haddr, hsize, fun szTransferred hle => hsize ▸ hle⟩

/-- **`acceptAsync` hands over** room for one address, and two lengths of that size. -/
theorem eq_acceptEx_of_acceptAsync {ok : FailPoint → Bool} {addressFamily : UUID}
    {memory : KernelMemory} (h : Win32Socket.acceptAsync ok w addressFamily = some memory) :
    memory = .acceptEx (sizeofSockaddrIn + 16) 0 (.ofNat 32 (sizeofSockaddrIn + 16))
      (.ofNat 32 (sizeofSockaddrIn + 16)) := by
  rw [Win32Socket.acceptAsync] at h
  cases htask : ok .allocTask with
  | false => simp [htask] at h
  | true =>
      cases hsocket : ok .createSocket with
      | false => simp [htask, hsocket] at h
      | true =>
          by_cases hfamily : addressFamily = ADDRFAM_IPV4
          · cases hoverlapped : ok .allocOverlapped with
            | false =>
                simp [htask, hsocket, hoverlapped, hfamily, compiledAddrSize,
                  Win32IOService.translateAddress, translate,
                  allocOverlapped] at h
            | true =>
                simpa [htask, hsocket, hoverlapped, hfamily, compiledAddrSize,
                  Win32IOService.translateAddress, translate,
                  allocOverlapped, eq_comm] using h
          · simp [htask, hsocket, hfamily, compiledAddrSize, Win32IOService.translateAddress,
              translate] at h

/-- **When the kernel stays in the memory of an operation**: a read or a write whose window
ends with the buffer, and no accept. -/
theorem confined_iff {ok : FailPoint → Bool} {operation : Operation w} {memory : KernelMemory}
    (hin : operation.InBuffer) (h : operation.issue ok = some memory) :
    operation.Confined memory ↔ operation.EndsWithBuffer := by
  cases operation with
  | read buffer =>
      obtain ⟨rcBuffer, hbuffer, hfits⟩ := hin
      obtain ⟨buf, rfl, -⟩ := eq_transfer_of_submitTransfer hbuffer hfits h
      exact isWindow_iff ⟨rcBuffer, hbuffer, hfits⟩ h
  | write buffer =>
      obtain ⟨rcBuffer, hbuffer, hfits⟩ := hin
      obtain ⟨buf, rfl, -⟩ := eq_transfer_of_submitTransfer hbuffer hfits h
      exact isWindow_iff ⟨rcBuffer, hbuffer, hfits⟩ h
  | accept addressFamily =>
      obtain rfl := eq_acceptEx_of_acceptAsync h
      refine iff_of_false ?_ not_false
      rw [Operation.Confined]
      decide

/-- A read of the last 16 bytes of a buffer of 4096. -/
def readTail : Operation 64 := .read ⟨some ⟨65536, 4096⟩, 4080, 16⟩

/-- A read of the first 16 bytes of that buffer. -/
def readFront : Operation 64 := .read ⟨some ⟨65536, 4096⟩, 0, 16⟩

/-- The kernel is given the last 16 bytes. -/
theorem readTail_confined : readTail.Confined (.transfer ⟨16, 69616⟩) :=
  (@confined_iff 64 (fun _ => true) readTail _ ⟨_, rfl, by decide⟩ rfl).mpr ⟨_, rfl, by decide⟩

/-- The kernel is given all 4096 bytes. -/
theorem readFront_not_confined :
    ∃ memory, readFront.issue (fun _ => true) = some memory ∧ ¬ readFront.Confined memory := by
  refine ⟨.transfer ⟨4096, 65536⟩, rfl, ?_⟩
  rintro ⟨rcBuffer, hbuffer, -, hlen, -⟩
  exact absurd hlen (by decide)

/-! ### The references the constructors build -/

/-- **The whole buffer is confined**: its window ends with the buffer. -/
theorem endsWithBuffer_whole (rcBuffer : RcBuffer w) :
    (Operation.read (.whole rcBuffer)).EndsWithBuffer := by
  refine ⟨rcBuffer, rfl, ?_⟩
  rw [RcBufferRef.whole, BitVec.ofNat_eq_ofNat, BitVec.toNat_ofNat, Nat.zero_mod, Nat.zero_add]

/-- **No window is confined** that the constructor accepts and that fits: the check refuses
the windows that end with the buffer. -/
theorem not_endsWithBuffer_window {rcBuffer : RcBuffer w} {offset size : BitVec w}
    {buffer : RcBufferRef w} (hwindow : RcBufferRef.window rcBuffer offset size = some buffer)
    (hfits : RcBufferRef.Fits rcBuffer offset size) :
    ¬ (Operation.read buffer).EndsWithBuffer := by
  rintro ⟨rcBuffer', hbuffer, hends⟩
  have hbound : rcBuffer.size.toNat < 2 ^ w := rcBuffer.size.isLt
  rw [RcBufferRef.Fits] at hfits
  have hlt := RcBufferRef.lt_of_window hwindow (by omega)
  obtain rfl := RcBufferRef.eq_of_window hwindow
  obtain rfl := Option.some.inj hbuffer
  exact absurd hends (Nat.ne_of_lt hlt)

end Netknot.Win32
