/-!
The reasons for which the operating system refuses a call. Each has a number, a symbol, the text
that programs print, and the fuller description that stands behind the symbol in reports.
-/

set_option autoImplicit false
set_option relaxedAutoImplicit false

namespace PipeShell

/-- A reason that nothing here treats in a way of its own, with what is said about it. -/
structure RareReason where
  number : Nat
  symbol : String
  text : String
  description : String := text
  deriving DecidableEq, Repr

/-- These reasons, in the order of their numbers. -/
def RareReason.all : List RareReason :=
  [
    { number := 6, symbol := "ENXIO", text := "No such device or address" },
    { number := 14, symbol := "EFAULT", text := "Bad address" },
    { number := 15, symbol := "ENOTBLK", text := "Block device required" },
    { number := 19, symbol := "ENODEV", text := "No such device" },
    { number := 25, symbol := "ENOTTY", text := "Inappropriate ioctl for device",
      description := "Not a typewriter" },
    { number := 27, symbol := "EFBIG", text := "File too large" },
    { number := 31, symbol := "EMLINK", text := "Too many links" },
    { number := 33, symbol := "EDOM", text := "Numerical argument out of domain",
      description := "Math argument out of domain of func" },
    { number := 34, symbol := "ERANGE", text := "Numerical result out of range",
      description := "Math result not representable" },
    { number := 35, symbol := "EDEADLK", text := "Resource deadlock avoided",
      description := "Resource deadlock would occur" },
    { number := 37, symbol := "ENOLCK", text := "No locks available",
      description := "No record locks available" },
    { number := 38, symbol := "ENOSYS", text := "Function not implemented" },
    { number := 42, symbol := "ENOMSG", text := "No message of desired type" },
    { number := 43, symbol := "EIDRM", text := "Identifier removed" },
    { number := 44, symbol := "ECHRNG", text := "Channel number out of range" },
    { number := 45, symbol := "EL2NSYNC", text := "Level 2 not synchronized" },
    { number := 46, symbol := "EL3HLT", text := "Level 3 halted" },
    { number := 47, symbol := "EL3RST", text := "Level 3 reset" },
    { number := 48, symbol := "ELNRNG", text := "Link number out of range" },
    { number := 49, symbol := "EUNATCH", text := "Protocol driver not attached" },
    { number := 50, symbol := "ENOCSI", text := "No CSI structure available" },
    { number := 51, symbol := "EL2HLT", text := "Level 2 halted" },
    { number := 52, symbol := "EBADE", text := "Invalid exchange" },
    { number := 53, symbol := "EBADR", text := "Invalid request descriptor" },
    { number := 54, symbol := "EXFULL", text := "Exchange full" },
    { number := 55, symbol := "ENOANO", text := "No anode" },
    { number := 56, symbol := "EBADRQC", text := "Invalid request code" },
    { number := 57, symbol := "EBADSLT", text := "Invalid slot" },
    { number := 59, symbol := "EBFONT", text := "Bad font file format" },
    { number := 60, symbol := "ENOSTR", text := "Device not a stream" },
    { number := 61, symbol := "ENODATA", text := "No data available" },
    { number := 62, symbol := "ETIME", text := "Timer expired" },
    { number := 63, symbol := "ENOSR", text := "Out of streams resources" },
    { number := 64, symbol := "ENONET", text := "Machine is not on the network" },
    { number := 65, symbol := "ENOPKG", text := "Package not installed" },
    { number := 66, symbol := "EREMOTE", text := "Object is remote" },
    { number := 67, symbol := "ENOLINK", text := "Link has been severed" },
    { number := 68, symbol := "EADV", text := "Advertise error" },
    { number := 69, symbol := "ESRMNT", text := "Srmount error" },
    { number := 70, symbol := "ECOMM", text := "Communication error on send" },
    { number := 71, symbol := "EPROTO", text := "Protocol error" },
    { number := 72, symbol := "EMULTIHOP", text := "Multihop attempted" },
    { number := 73, symbol := "EDOTDOT", text := "RFS specific error" },
    { number := 74, symbol := "EBADMSG", text := "Bad message",
      description := "Not a data message" },
    { number := 75, symbol := "EOVERFLOW", text := "Value too large for defined data type" },
    { number := 76, symbol := "ENOTUNIQ", text := "Name not unique on network" },
    { number := 77, symbol := "EBADFD", text := "File descriptor in bad state" },
    { number := 78, symbol := "EREMCHG", text := "Remote address changed" },
    { number := 79, symbol := "ELIBACC", text := "Can not access a needed shared library" },
    { number := 80, symbol := "ELIBBAD", text := "Accessing a corrupted shared library" },
    { number := 81, symbol := "ELIBSCN", text := ".lib section in a.out corrupted" },
    { number := 82, symbol := "ELIBMAX",
      text := "Attempting to link in too many shared libraries" },
    { number := 83, symbol := "ELIBEXEC", text := "Cannot exec a shared library directly" },
    { number := 84, symbol := "EILSEQ", text := "Invalid or incomplete multibyte or wide character",
      description := "Illegal byte sequence" },
    { number := 85, symbol := "ERESTART", text := "Interrupted system call should be restarted" },
    { number := 86, symbol := "ESTRPIPE", text := "Streams pipe error" },
    { number := 87, symbol := "EUSERS", text := "Too many users" },
    { number := 88, symbol := "ENOTSOCK", text := "Socket operation on non-socket" },
    { number := 89, symbol := "EDESTADDRREQ", text := "Destination address required" },
    { number := 90, symbol := "EMSGSIZE", text := "Message too long" },
    { number := 91, symbol := "EPROTOTYPE", text := "Protocol wrong type for socket" },
    { number := 92, symbol := "ENOPROTOOPT", text := "Protocol not available" },
    { number := 93, symbol := "EPROTONOSUPPORT", text := "Protocol not supported" },
    { number := 94, symbol := "ESOCKTNOSUPPORT", text := "Socket type not supported" },
    { number := 95, symbol := "EOPNOTSUPP", text := "Operation not supported",
      description := "Operation not supported on transport endpoint" },
    { number := 96, symbol := "EPFNOSUPPORT", text := "Protocol family not supported" },
    { number := 97, symbol := "EAFNOSUPPORT", text := "Address family not supported by protocol" },
    { number := 98, symbol := "EADDRINUSE", text := "Address already in use" },
    { number := 99, symbol := "EADDRNOTAVAIL", text := "Cannot assign requested address" },
    { number := 100, symbol := "ENETDOWN", text := "Network is down" },
    { number := 101, symbol := "ENETUNREACH", text := "Network is unreachable" },
    { number := 102, symbol := "ENETRESET", text := "Network dropped connection on reset",
      description := "Network dropped connection because of reset" },
    { number := 103, symbol := "ECONNABORTED", text := "Software caused connection abort" },
    { number := 104, symbol := "ECONNRESET", text := "Connection reset by peer" },
    { number := 105, symbol := "ENOBUFS", text := "No buffer space available" },
    { number := 106, symbol := "EISCONN", text := "Transport endpoint is already connected" },
    { number := 107, symbol := "ENOTCONN", text := "Transport endpoint is not connected" },
    { number := 108, symbol := "ESHUTDOWN",
      text := "Cannot send after transport endpoint shutdown" },
    { number := 109, symbol := "ETOOMANYREFS", text := "Too many references: cannot splice" },
    { number := 110, symbol := "ETIMEDOUT", text := "Connection timed out" },
    { number := 111, symbol := "ECONNREFUSED", text := "Connection refused" },
    { number := 112, symbol := "EHOSTDOWN", text := "Host is down" },
    { number := 113, symbol := "EHOSTUNREACH", text := "No route to host" },
    { number := 114, symbol := "EALREADY", text := "Operation already in progress" },
    { number := 115, symbol := "EINPROGRESS", text := "Operation now in progress" },
    { number := 116, symbol := "ESTALE", text := "Stale file handle" },
    { number := 117, symbol := "EUCLEAN", text := "Structure needs cleaning" },
    { number := 118, symbol := "ENOTNAM", text := "Not a XENIX named type file" },
    { number := 119, symbol := "ENAVAIL", text := "No XENIX semaphores available" },
    { number := 120, symbol := "EISNAM", text := "Is a named type file" },
    { number := 121, symbol := "EREMOTEIO", text := "Remote I/O error" },
    { number := 122, symbol := "EDQUOT", text := "Disk quota exceeded",
      description := "Quota exceeded" },
    { number := 123, symbol := "ENOMEDIUM", text := "No medium found" },
    { number := 124, symbol := "EMEDIUMTYPE", text := "Wrong medium type" },
    { number := 125, symbol := "ECANCELED", text := "Operation canceled" },
    { number := 126, symbol := "ENOKEY", text := "Required key not available" },
    { number := 127, symbol := "EKEYEXPIRED", text := "Key has expired" },
    { number := 128, symbol := "EKEYREVOKED", text := "Key has been revoked" },
    { number := 129, symbol := "EKEYREJECTED", text := "Key was rejected by service" },
    { number := 130, symbol := "EOWNERDEAD", text := "Owner died" },
    { number := 131, symbol := "ENOTRECOVERABLE", text := "State not recoverable" },
    { number := 132, symbol := "ERFKILL", text := "Operation not possible due to RF-kill" },
    { number := 133, symbol := "EHWPOISON", text := "Memory page has hardware error" }
  ]

/-- Why a system call was refused. -/
inductive Errno
  | notPermitted
  | noEntry
  | noProcess
  | interrupted
  | inputOutput
  | argumentsTooLong
  | notExecutable
  | badDescriptor
  | noChild
  | tryAgain
  | outOfMemory
  | accessDenied
  | busy
  | alreadyExists
  | crossDevice
  | notDirectory
  | isDirectory
  | invalid
  | tableFull
  | tooManyOpen
  | textBusy
  | noSpace
  | illegalSeek
  | readOnly
  | brokenPipe
  | nameTooLong
  | notEmpty
  | tooManyLinks
  | rare (reason : { r : RareReason // r ∈ RareReason.all })
  deriving DecidableEq, Repr, Inhabited

namespace Errno

def number : Errno → Nat
  | notPermitted => 1
  | noEntry => 2
  | noProcess => 3
  | interrupted => 4
  | inputOutput => 5
  | argumentsTooLong => 7
  | notExecutable => 8
  | badDescriptor => 9
  | noChild => 10
  | tryAgain => 11
  | outOfMemory => 12
  | accessDenied => 13
  | busy => 16
  | alreadyExists => 17
  | crossDevice => 18
  | notDirectory => 20
  | isDirectory => 21
  | invalid => 22
  | tableFull => 23
  | tooManyOpen => 24
  | textBusy => 26
  | noSpace => 28
  | illegalSeek => 29
  | readOnly => 30
  | brokenPipe => 32
  | nameTooLong => 36
  | notEmpty => 39
  | tooManyLinks => 40
  | rare reason => reason.val.number

def symbol : Errno → String
  | notPermitted => "EPERM"
  | noEntry => "ENOENT"
  | noProcess => "ESRCH"
  | interrupted => "EINTR"
  | inputOutput => "EIO"
  | argumentsTooLong => "E2BIG"
  | notExecutable => "ENOEXEC"
  | badDescriptor => "EBADF"
  | noChild => "ECHILD"
  | tryAgain => "EAGAIN"
  | outOfMemory => "ENOMEM"
  | accessDenied => "EACCES"
  | busy => "EBUSY"
  | alreadyExists => "EEXIST"
  | crossDevice => "EXDEV"
  | notDirectory => "ENOTDIR"
  | isDirectory => "EISDIR"
  | invalid => "EINVAL"
  | tableFull => "ENFILE"
  | tooManyOpen => "EMFILE"
  | textBusy => "ETXTBSY"
  | noSpace => "ENOSPC"
  | illegalSeek => "ESPIPE"
  | readOnly => "EROFS"
  | brokenPipe => "EPIPE"
  | nameTooLong => "ENAMETOOLONG"
  | notEmpty => "ENOTEMPTY"
  | tooManyLinks => "ELOOP"
  | rare reason => reason.val.symbol

/-- The text that programs print for the reason. -/
def text : Errno → String
  | notPermitted => "Operation not permitted"
  | noEntry => "No such file or directory"
  | noProcess => "No such process"
  | interrupted => "Interrupted system call"
  | inputOutput => "Input/output error"
  | argumentsTooLong => "Argument list too long"
  | notExecutable => "Exec format error"
  | badDescriptor => "Bad file descriptor"
  | noChild => "No child processes"
  | tryAgain => "Resource temporarily unavailable"
  | outOfMemory => "Cannot allocate memory"
  | accessDenied => "Permission denied"
  | busy => "Device or resource busy"
  | alreadyExists => "File exists"
  | crossDevice => "Invalid cross-device link"
  | notDirectory => "Not a directory"
  | isDirectory => "Is a directory"
  | invalid => "Invalid argument"
  | tableFull => "Too many open files in system"
  | tooManyOpen => "Too many open files"
  | textBusy => "Text file busy"
  | noSpace => "No space left on device"
  | illegalSeek => "Illegal seek"
  | readOnly => "Read-only file system"
  | brokenPipe => "Broken pipe"
  | nameTooLong => "File name too long"
  | notEmpty => "Directory not empty"
  | tooManyLinks => "Too many levels of symbolic links"
  | rare reason => reason.val.text

/-- The description that follows the symbol in reports. It differs from the printed text for a few
reasons. -/
def description : Errno → String
  | inputOutput => "I/O error"
  | badDescriptor => "Bad file number"
  | tryAgain => "Try again"
  | outOfMemory => "Out of memory"
  | crossDevice => "Cross-device link"
  | tableFull => "File table overflow"
  | tooManyLinks => "Too many symbolic links encountered"
  | rare reason => reason.val.description
  | e => e.text

/-- The symbol with its description. -/
def report (e : Errno) : String := e.symbol ++ ": " ++ e.description

/-- The printed text with the number, as it stands in messages about files. -/
def numbered (e : Errno) : String := e.text ++ " (os error " ++ toString e.number ++ ")"

end Errno

end PipeShell
