import Mathlib.Data.Vector.Defs
import Netknot.Lib.ByteOrder
import Netknot.Sockets

/-!
# Addresses

`translateAddress` turns an `Address` into the `sockaddr_in` the operating system reads, and
`detranslateAddress` turns one back. Both backends contain the same code, so each function is
one definition, and the member functions are its instances.

The translated address is a piece of memory: the bytes of the `sockaddr_in` in the order of
the host. The encoder builds the number `s_addr` from the four fields with `a` in the lowest
byte and never converts it; the decoder takes `a` from the highest byte. The encoder converts
the port with `htons`; the decoder does not convert it back.

## Main results

* `portBytes_encode`, `addressBytes_encode`: the bytes a translated address has in memory.
* `detranslateAddress_bytes`: what the decoder makes of a `sockaddr_in`.
* `translation_roundTrips_iff`: the two functions undo each other on the addresses that
  read the same from both ends.
-/

namespace Netknot

open ByteOrder

/-- `peff::UUID`. -/
abbrev UUID := BitVec 128

/-- `ADDRFAM_IPV4`. -/
def ADDRFAM_IPV4 : UUID := 0x82eaca08cb19420c8829b00086bae90c#128

/-- `ADDRFAM_IPV6`. -/
def ADDRFAM_IPV6 : UUID := 0xcfd0b918e20e403ba63ae8be9974be3a#128

/-- The fields of an `IPv4Address`. -/
@[ext] structure IPv4Address where
  a : UInt8 := 0
  b : UInt8 := 0
  c : UInt8 := 0
  d : UInt8 := 0
  port : UInt16 := 0
  deriving DecidableEq, Repr

/-- The address in the order in which it is written. -/
def IPv4Address.bytes (addr : IPv4Address) : List UInt8 := [addr.a, addr.b, addr.c, addr.d]

/-- An `Address`: its family, and the `IPv4Address` a pointer to it can be cast to when it
has that family. -/
structure Address where
  addressFamily : UUID := ADDRFAM_IPV4
  ipv4 : IPv4Address := {}
  deriving DecidableEq, Repr

/-- `AF_INET`. -/
def AF_INET : UInt16 := 2

/-- `sockaddr_in`. The numbers are those the program reads from its fields; their bytes in
memory depend on the host. -/
structure SockaddrIn where
  sin_family : UInt16 := 0
  sin_port : UInt16 := 0
  s_addr : UInt32 := 0
  sin_zero : List.Vector UInt8 8 := .replicate 8 0
  deriving DecidableEq

/-- `sizeof(sockaddr_in)`. -/
def sizeofSockaddrIn : ℕ := 16

/-- The bytes of a `sockaddr_in` in memory. -/
def SockaddrIn.bytes (host : Endian) (sa : SockaddrIn) : List UInt8 :=
  store host 2 sa.sin_family.toNat ++ store host 2 sa.sin_port.toNat ++
    store host 4 sa.s_addr.toNat ++ sa.sin_zero.toList

/-- Reading the field `sin_port` of a `sockaddr_in *`. -/
def readSinPort (host : Endian) (data : List UInt8) : UInt16 :=
  .ofNat (load host ((data.drop 2).take 2))

/-- Reading the field `sin_addr.s_addr` of a `sockaddr_in *`. -/
def readSAddr (host : Endian) (data : List UInt8) : UInt32 :=
  .ofNat (load host ((data.drop 4).take 4))

/-- `UnixTranslatedAddress`, `Win32TranslatedAddress`. -/
structure TranslatedAddress where
  data : List UInt8
  size : ℕ
  deriving DecidableEq, Repr

/-- The allocations of `translateAddress`. -/
inductive TranslateAlloc
  | compiledAddress
  | data
  deriving DecidableEq, Repr

/-- What `translateAddress` returns, and the out parameters it wrote. -/
structure Translation where
  exception : ExceptionPointer := none
  compiledAddressOut : Option TranslatedAddress := none
  compiledAddressSizeOut : Option ℕ := none
  deriving DecidableEq, Repr

/-- `htons`. -/
def htons (host : Endian) (port : UInt16) : UInt16 := .ofNat (hton host 2 port.toNat)

/-- The `sockaddr_in` that `translateAddress` builds. -/
def encode (host : Endian) (addr : IPv4Address) : SockaddrIn :=
  { sin_family := AF_INET
    s_addr := (addr.d.toUInt32 <<< 24) ||| (addr.c.toUInt32 <<< 16) |||
      (addr.b.toUInt32 <<< 8) ||| addr.a.toUInt32
    sin_port := htons host addr.port }

/-- The body of both `translateAddress`. `wanted` says that `compiledAddressOut` is not null,
`allocated` which allocations succeed; `none` is `std::terminate`. -/
def translate (host : Endian) (allocated : TranslateAlloc → Bool) (address : Address)
    (wanted : Bool) : Option Translation :=
  if address.addressFamily = ADDRFAM_IPV4 then
    if !wanted then some { compiledAddressSizeOut := some sizeofSockaddrIn }
    else if !allocated .compiledAddress then some { exception := some .outOfMemory }
    else if !allocated .data then some { exception := some .outOfMemory }
    else
      let sa := encode host address.ipv4
      some { compiledAddressOut := some ⟨sa.bytes host, sizeofSockaddrIn⟩ }
  else none

/-- The fields that `detranslateAddress` assigns. -/
def decode (s_addr : UInt32) (sin_port : UInt16) : IPv4Address :=
  { a := (s_addr >>> 24).toUInt8
    b := ((s_addr >>> 16) &&& 0xff).toUInt8
    c := ((s_addr >>> 8) &&& 0xff).toUInt8
    d := (s_addr &&& 0xff).toUInt8
    port := sin_port }

/-- The body of both `detranslateAddress`: what it returns, and `addressOut` afterwards. -/
def detranslate (host : Endian) (addressFamily : UUID) (address : TranslatedAddress)
    (addressOut : Address) : Option (ExceptionPointer × Address) :=
  if addressFamily = ADDRFAM_IPV4 then
    let ipv4 := decode (readSAddr host address.data) (readSinPort host address.data)
    some (none, { addressOut with ipv4 := ipv4 })
  else none

/-- `UnixIOService::translateAddress`. -/
def UnixIOService.translateAddress := translate

/-- `Win32IOService::translateAddress`. -/
def Win32IOService.translateAddress := translate

/-- `UnixIOService::detranslateAddress`. -/
def UnixIOService.detranslateAddress := detranslate

/-- `Win32IOService::detranslateAddress`. -/
def Win32IOService.detranslateAddress := detranslate

/-- `IOService::translateAddress`. -/
def IOService.translateAddress (backend : Backend) (host : Endian)
    (allocated : TranslateAlloc → Bool) (address : Address) (wanted : Bool) :
    Option Translation :=
  match backend with
  | .win32 => Win32IOService.translateAddress host allocated address wanted
  | .unix => UnixIOService.translateAddress host allocated address wanted

/-- `IOService::detranslateAddress`. -/
def IOService.detranslateAddress (backend : Backend) (host : Endian) (addressFamily : UUID)
    (address : TranslatedAddress) (addressOut : Address) : Option (ExceptionPointer × Address) :=
  match backend with
  | .win32 => Win32IOService.detranslateAddress host addressFamily address addressOut
  | .unix => UnixIOService.detranslateAddress host addressFamily address addressOut

/-! ### The memory of a `sockaddr_in` -/

/-- The bytes at offset two of a `sockaddr_in` are those of its port. -/
theorem portBytes_bytes (host : Endian) (sa : SockaddrIn) :
    ((sa.bytes host).drop 2).take 2 = store host 2 sa.sin_port.toNat := by
  rw [SockaddrIn.bytes, List.append_assoc, List.append_assoc,
    List.drop_left' (length_store _ _ _), List.take_left' (length_store _ _ _)]

/-- The bytes at offset four of a `sockaddr_in` are those of its address. -/
theorem addressBytes_bytes (host : Endian) (sa : SockaddrIn) :
    ((sa.bytes host).drop 4).take 4 = store host 4 sa.s_addr.toNat := by
  rw [SockaddrIn.bytes, List.append_assoc, List.drop_left' (by simp),
    List.take_left' (length_store _ _ _)]

@[simp] theorem readSinPort_bytes (host : Endian) (sa : SockaddrIn) :
    readSinPort host (sa.bytes host) = sa.sin_port := by
  have hlt : sa.sin_port.toNat < 256 ^ 2 := sa.sin_port.toNat_lt
  rw [readSinPort, portBytes_bytes, load_store host hlt, UInt16.ofNat_toNat]

@[simp] theorem readSAddr_bytes (host : Endian) (sa : SockaddrIn) :
    readSAddr host (sa.bytes host) = sa.s_addr := by
  have hlt : sa.s_addr.toNat < 256 ^ 4 := sa.s_addr.toNat_lt
  rw [readSAddr, addressBytes_bytes, load_store host hlt, UInt32.ofNat_toNat]

/-! ### The encoder -/

/-- **The number the encoder builds** has `a` in its lowest byte, on every host. -/
theorem s_addr_encode (host : Endian) (addr : IPv4Address) :
    (encode host addr).s_addr.toNat = ofLittle addr.bytes := by
  have hnil : ofLittle [] = 0 := rfl
  have hshift : ∀ (x : UInt8) (k : ℕ), k ≤ 24 → x.toNat <<< k % 2 ^ 32 = x.toNat <<< k := by
    intro x k hk
    have hx : x.toNat < 2 ^ 8 := x.toNat_lt
    rw [Nat.shiftLeft_eq, Nat.mod_eq_of_lt]
    calc x.toNat * 2 ^ k ≤ x.toNat * 2 ^ 24 :=
          Nat.mul_le_mul_left _ (Nat.pow_le_pow_right (by omega) hk)
      _ < 2 ^ 32 := by omega
  simp only [IPv4Address.bytes, ofLittle_cons_eq_or, hnil, Nat.shiftLeft_or_distrib,
    ← Nat.shiftLeft_add, Nat.zero_shiftLeft, Nat.zero_or]
  simp only [encode, UInt32.toNat_or, UInt32.toNat_shiftLeft, UInt8.toNat_toUInt32,
    UInt32.reduceToNat, Nat.reduceMod]
  rw [hshift addr.d 24 (by omega), hshift addr.c 16 (by omega), hshift addr.b 8 (by omega)]

/-- `htons` stays in the range of a port. -/
theorem toNat_htons (host : Endian) (port : UInt16) :
    (htons host port).toNat = hton host 2 port.toNat := by
  have hlt : hton host 2 port.toNat < 2 ^ 16 := hton_lt host 2 _
  exact UInt16.toNat_ofNat_of_lt hlt

/-- **The port is in network order** in memory, on every host. -/
theorem portBytes_encode (host : Endian) (addr : IPv4Address) :
    (((encode host addr).bytes host).drop 2).take 2 = store .big 2 addr.port.toNat := by
  rw [portBytes_bytes, encode, toNat_htons, store_hton]

/-- **The address is in the order of the host**: `a, b, c, d` on a little-endian host only. -/
theorem addressBytes_encode (host : Endian) (addr : IPv4Address) :
    (((encode host addr).bytes host).drop 4).take 4 =
      match host with
      | .little => addr.bytes
      | .big => addr.bytes.reverse := by
  have hlittle : toLittle 4 (ofLittle addr.bytes) = addr.bytes := toLittle_ofLittle addr.bytes
  rw [addressBytes_bytes, s_addr_encode]
  cases host with
  | little => exact hlittle
  | big => exact congrArg List.reverse hlittle

/-! ### The decoder -/

/-- **The decoder reverses**: it takes `a` from the highest byte of the number. -/
theorem bytes_decode (s_addr : UInt32) (sin_port : UInt16) :
    (decode s_addr sin_port).bytes = (toLittle 4 s_addr.toNat).reverse := by
  have hlt : s_addr.toNat < 2 ^ 32 := s_addr.toNat_lt
  have hmask : ∀ n : ℕ, n &&& 255 = n % 256 := fun n => Nat.and_two_pow_sub_one_eq_mod n 8
  simp only [decode, IPv4Address.bytes, toLittle, List.reverse_cons, List.reverse_nil,
    List.nil_append, List.cons_append, List.cons.injEq, and_true, ← UInt8.toNat_inj,
    UInt32.toNat_toUInt8, UInt32.toNat_and, UInt32.toNat_shiftRight, UInt8.toNat_ofNat',
    UInt32.reduceToNat, Nat.reduceMod, Nat.shiftRight_eq_div_pow, hmask]
  omega

/-- The decoder in terms of the numbers: the address is reversed, the port is kept. -/
theorem encode_decode_s_addr (host : Endian) (s_addr : UInt32) (sin_port : UInt16) :
    (encode host (decode s_addr sin_port)).s_addr.toNat =
      ofLittle (toLittle 4 s_addr.toNat).reverse := by
  rw [s_addr_encode, bytes_decode]

/-- **An encoded address is decoded** to `d, c, b, a`, with the port as it was converted. -/
theorem decode_encode (host : Endian) (addr : IPv4Address) :
    decode (encode host addr).s_addr (encode host addr).sin_port =
      { a := addr.d, b := addr.c, c := addr.b, d := addr.a, port := htons host addr.port } := by
  have hlittle : toLittle 4 (ofLittle addr.bytes) = addr.bytes := toLittle_ofLittle addr.bytes
  have hbytes := bytes_decode (encode host addr).s_addr (encode host addr).sin_port
  rw [s_addr_encode, hlittle] at hbytes
  simp only [IPv4Address.bytes, List.reverse_cons, List.reverse_nil, List.nil_append,
    List.cons_append, List.cons.injEq, and_true] at hbytes
  obtain ⟨ha, hb, hc, hd⟩ := hbytes
  exact IPv4Address.ext ha hb hc hd rfl

/-! ### The round trips -/

section

variable (backend : Backend) (host : Endian) (allocated : TranslateAlloc → Bool)

/-- **Encoding and decoding an address**: the `sockaddr_in` has the address and the port in
network order, and the decoder gives the address back. -/
def RoundTrips (addr : IPv4Address) : Prop :=
  ∃ compiled, IOService.translateAddress backend host allocated { ipv4 := addr } true =
      some { compiledAddressOut := some compiled } ∧
    compiled.size = sizeofSockaddrIn ∧
    compiled.data.take 2 = store host 2 AF_INET.toNat ∧
    (compiled.data.drop 4).take 4 = addr.bytes ∧
    (compiled.data.drop 2).take 2 = store .big 2 addr.port.toNat ∧
    ∀ addressOut, IOService.detranslateAddress backend host ADDRFAM_IPV4 compiled addressOut =
      some (none, { addressOut with ipv4 := addr })

/-- **Decoding and encoding a `sockaddr_in`** gives its bytes back. -/
def Restores (sa : SockaddrIn) : Prop :=
  ∃ addr, IOService.detranslateAddress backend host ADDRFAM_IPV4
      ⟨sa.bytes host, sizeofSockaddrIn⟩ {} = some (none, addr) ∧
    IOService.translateAddress backend host allocated addr true =
      some { compiledAddressOut := some ⟨sa.bytes host, sizeofSockaddrIn⟩ }

/-- Both allocations of `translateAddress` succeed. -/
def TranslateAlloc.Succeeds : Prop :=
  allocated .compiledAddress = true ∧ allocated .data = true

variable {backend host allocated}

/-- `translateAddress` gives for an IPv4 address the bytes of what `encode` builds, if its
memory suffices. -/
theorem translateAddress_eq_iff {addr : IPv4Address} {compiled : TranslatedAddress} :
    IOService.translateAddress backend host allocated { ipv4 := addr } true =
        some { compiledAddressOut := some compiled } ↔
      TranslateAlloc.Succeeds allocated ∧
        compiled = ⟨(encode host addr).bytes host, sizeofSockaddrIn⟩ := by
  have hbody : IOService.translateAddress backend host allocated { ipv4 := addr } true =
      translate host allocated { ipv4 := addr } true := by
    cases backend with
    | win32 => rfl
    | unix => rfl
  rw [hbody, translate, if_pos rfl, TranslateAlloc.Succeeds]
  cases hobject : allocated .compiledAddress with
  | false => simp
  | true =>
      cases hdata : allocated .data with
      | false => simp
      | true => simp [eq_comm]

/-- `detranslateAddress` gives for the bytes of a `sockaddr_in` what `decode` makes of
its fields. -/
theorem detranslateAddress_bytes (sa : SockaddrIn) (addressOut : Address) :
    IOService.detranslateAddress backend host ADDRFAM_IPV4
        ⟨sa.bytes host, sizeofSockaddrIn⟩ addressOut =
      some (none, { addressOut with ipv4 := decode sa.s_addr sa.sin_port }) := by
  have hbody : IOService.detranslateAddress backend host ADDRFAM_IPV4
      ⟨sa.bytes host, sizeofSockaddrIn⟩ addressOut =
        detranslate host ADDRFAM_IPV4 ⟨sa.bytes host, sizeofSockaddrIn⟩ addressOut := by
    cases backend with
    | win32 => rfl
    | unix => rfl
  rw [hbody, detranslate, if_pos rfl, readSAddr_bytes, readSinPort_bytes]

/-- The port survives if and only if `htons` does not change it. -/
theorem htons_eq_self_iff {port : UInt16} :
    htons host port = port ↔ host = .big ∨ Symmetric 2 port.toNat := by
  have hlt : port.toNat < 256 ^ 2 := port.toNat_lt
  rw [← hton_eq_self_iff hlt, ← UInt16.toNat_inj, toNat_htons]

/-- **When an address round-trips**: it is the same from both ends, and so is its port, where
the host has to convert it. -/
theorem roundTrips_iff {addr : IPv4Address} :
    RoundTrips backend host allocated addr ↔
      TranslateAlloc.Succeeds allocated ∧ addr.a = addr.d ∧ addr.b = addr.c ∧
        (host = .big ∨ Symmetric 2 addr.port.toNat) := by
  constructor
  · rintro ⟨compiled, htranslate, -, -, -, -, hback⟩
    obtain ⟨halloc, rfl⟩ := translateAddress_eq_iff.mp htranslate
    have hdecode := hback {}
    rw [detranslateAddress_bytes, decode_encode] at hdecode
    obtain ⟨ha, hb, -, -, hport⟩ :
        addr.d = addr.a ∧ addr.c = addr.b ∧ addr.b = addr.c ∧ addr.a = addr.d ∧
          htons host addr.port = addr.port := by
      simpa [IPv4Address.ext_iff] using hdecode
    exact ⟨halloc, ha.symm, hb.symm, htons_eq_self_iff.mp hport⟩
  · rintro ⟨halloc, had, hbc, hport⟩
    have hreverse : addr.bytes.reverse = addr.bytes := by
      simp [IPv4Address.bytes, had, hbc]
    refine ⟨_, translateAddress_eq_iff.mpr ⟨halloc, rfl⟩, rfl, ?_, ?_, portBytes_encode host addr,
      fun addressOut => ?_⟩
    · rw [SockaddrIn.bytes, List.append_assoc, List.append_assoc,
        List.take_left' (length_store _ _ _), encode]
    · rw [addressBytes_encode]
      cases host with
      | little => rfl
      | big => exact hreverse
    · rw [detranslateAddress_bytes, decode_encode, htons_eq_self_iff.mpr hport]
      obtain ⟨a, b, c, d, port⟩ := addr
      obtain rfl : a = d := had
      obtain rfl : b = c := hbc
      rfl

/-- The bytes of two `sockaddr_in` agree if their fields do. -/
theorem bytes_inj {sa sa' : SockaddrIn} (hfamily : sa.sin_family = sa'.sin_family)
    (hzero : sa.sin_zero = sa'.sin_zero) :
    sa.bytes host = sa'.bytes host ↔ sa.sin_port = sa'.sin_port ∧ sa.s_addr = sa'.s_addr := by
  constructor
  · intro h
    constructor
    · rw [← readSinPort_bytes host sa, h, readSinPort_bytes]
    · rw [← readSAddr_bytes host sa, h, readSAddr_bytes]
  · rintro ⟨hport, haddr⟩
    rw [SockaddrIn.bytes, SockaddrIn.bytes, hfamily, hzero, hport, haddr]

/-- **When a `sockaddr_in` round-trips**: its address is symmetric, and so is its port, where
the host has to convert it. -/
theorem restores_iff {sa : SockaddrIn} (hfamily : sa.sin_family = AF_INET)
    (hzero : sa.sin_zero = .replicate 8 0) :
    Restores backend host allocated sa ↔
      TranslateAlloc.Succeeds allocated ∧ Symmetric 4 sa.s_addr.toNat ∧
        (host = .big ∨ Symmetric 2 sa.sin_port.toNat) := by
  have hencode : (encode host (decode sa.s_addr sa.sin_port)).bytes host = sa.bytes host ↔
      Symmetric 4 sa.s_addr.toNat ∧ (host = .big ∨ Symmetric 2 sa.sin_port.toNat) := by
    have hlt : sa.s_addr.toNat < 256 ^ 4 := sa.s_addr.toNat_lt
    have hport : (encode host (decode sa.s_addr sa.sin_port)).sin_port = htons host sa.sin_port :=
      rfl
    rw [bytes_inj hfamily.symm hzero.symm, hport, htons_eq_self_iff, ← UInt32.toNat_inj,
      encode_decode_s_addr, ofLittle_reverse_eq_iff hlt, and_comm]
  rw [Restores, ← hencode]
  constructor
  · rintro ⟨addr, hdecode, hencoded⟩
    rw [detranslateAddress_bytes] at hdecode
    obtain rfl := (Prod.mk.inj (Option.some.inj hdecode)).2
    obtain ⟨halloc, hbytes⟩ := translateAddress_eq_iff.mp hencoded
    exact ⟨halloc, (TranslatedAddress.mk.inj hbytes).1.symm⟩
  · rintro ⟨halloc, hbytes⟩
    refine ⟨_, detranslateAddress_bytes sa {}, translateAddress_eq_iff.mpr ⟨halloc, ?_⟩⟩
    rw [hbytes]

end

/-- **The translation undoes itself** exactly on the symmetric addresses, on both backends and in
both directions. -/
theorem translation_roundTrips_iff (backend : Backend) (host : Endian)
    (allocated : TranslateAlloc → Bool) :
    (∀ addr : IPv4Address, RoundTrips backend host allocated addr ↔
      TranslateAlloc.Succeeds allocated ∧ addr.a = addr.d ∧ addr.b = addr.c ∧
        (host = .big ∨ Symmetric 2 addr.port.toNat)) ∧
    ∀ sa : SockaddrIn, sa.sin_family = AF_INET → sa.sin_zero = .replicate 8 0 →
      (Restores backend host allocated sa ↔
        TranslateAlloc.Succeeds allocated ∧ Symmetric 4 sa.s_addr.toNat ∧
          (host = .big ∨ Symmetric 2 sa.sin_port.toNat)) :=
  ⟨fun _ => roundTrips_iff, fun _ hfamily hzero => restores_iff hfamily hzero⟩

/-- The address `10.0.0.10` with port `0x5050` round-trips, and the `sockaddr_in` it is encoded as
does too. -/
theorem roundTrips_symmetric :
    RoundTrips .unix .little (fun _ => true)
        { a := 10, b := 0, c := 0, d := 10, port := 0x5050 } ∧
      Restores .unix .little (fun _ => true)
        { sin_family := AF_INET, sin_port := 0x5050, s_addr := 0x0a00000a } :=
  ⟨((translation_roundTrips_iff .unix .little fun _ => true).1 _).mpr
      ⟨⟨rfl, rfl⟩, rfl, rfl, .inr (by decide)⟩,
    ((translation_roundTrips_iff .unix .little fun _ => true).2 _ rfl rfl).mpr
      ⟨⟨rfl, rfl⟩, by decide, .inr (by decide)⟩⟩

/-- The address `127.0.0.1:80` on a little-endian host comes back as `1.0.0.127`. -/
theorem not_roundTrips_localhost :
    ¬ RoundTrips .unix .little (fun _ => true)
      { a := 127, b := 0, c := 0, d := 1, port := 80 } := by
  rw [roundTrips_iff]
  rintro ⟨-, had, -⟩
  exact absurd had (by decide)

end Netknot
