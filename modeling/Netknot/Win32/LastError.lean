import Netknot.Except

/-!
# Translating Winsock Error Codes

`wsaLastErrorToExcept` turns the code of a failed Winsock call into an exception. Three
things can come out of it: an exception; the null pointer, when the code is listed but the
`NetworkError` cannot be allocated; and `std::terminate`, when the code is not listed.
-/

namespace Netknot.Win32

/-- `WSA_NOT_ENOUGH_MEMORY`. -/
def WSA_NOT_ENOUGH_MEMORY : ℕ := 8

/-- `WSA_IO_PENDING`: the overlapped operation was accepted and completes later. -/
def WSA_IO_PENDING : ℕ := 997

/-- `WSAECONNRESET`: the peer reset the connection. -/
def WSAECONNRESET : ℕ := 10054

/-- The codes `wsaLastErrorToExcept` maps to a `NetworkError`, in the order of its `switch`. -/
def networkErrors : List (ℕ × NetworkErrorCode) :=
  [(10048, .addressInUse),              -- WSAEADDRINUSE
   (10013, .accessDenied),              -- WSAEACCES
   (10024, .tooManyOpenedFiles),        -- WSAEMFILE
   (10040, .messageSizeIsTooBig),       -- WSAEMSGSIZE
   (10043, .protocolNotSupported),      -- WSAEPROTONOSUPPORT
   (10044, .socketTypeNotSupported),    -- WSAESOCKTNOSUPPORT
   (10049, .addressNotAvailable),       -- WSAEADDRNOTAVAIL
   (10050, .networkIsDown),             -- WSAENETDOWN
   (10052, .networkReseted),            -- WSAENETRESET
   (10051, .networkIsUnreachable),      -- WSAENETUNREACH
   (WSAECONNRESET, .connectionReseted),
   (10058, .shutdown),                  -- WSAESHUTDOWN
   (10060, .timedOut),                  -- WSAETIMEDOUT
   (10061, .connectionRefused),         -- WSAECONNREFUSED
   (10064, .hostIsDown),                -- WSAEHOSTDOWN
   (10065, .hostIsUnreachable),         -- WSAEHOSTUNREACH
   (10067, .resourceLimitExceeded),     -- WSAEPROCLIM
   (10068, .resourceLimitExceeded),     -- WSAEUSERS
   (10069, .resourceLimitExceeded),     -- WSAEDQUOT
   (10091, .systemIsNotReady),          -- WSASYSNOTREADY
   (10092, .unsupportedPlatform),       -- WSAVERNOTSUPPORTED
   (10093, .errorInit)]                 -- WSANOTINITIALISED

/-- `wsaLastErrorToExcept`. `allocated` says whether `NetworkError::alloc` gets its
memory: it returns a null `NetworkError *` when it does not, and the conversion to
`ExceptionPointer` keeps it null. The result `none` is `std::terminate`. -/
def wsaLastErrorToExcept (allocated : Bool) (errorCode : ℕ) : Option ExceptionPointer :=
  if errorCode = WSA_NOT_ENOUGH_MEMORY then some (some .outOfMemory)
  else (networkErrors.lookup errorCode).map fun code =>
    if allocated then some (.network code) else none

/-- A pending operation is no listed error: translating its code terminates. -/
theorem wsaLastErrorToExcept_io_pending (allocated : Bool) :
    wsaLastErrorToExcept allocated WSA_IO_PENDING = none := by
  cases allocated <;> decide

end Netknot.Win32
