import Mathlib.Data.List.TakeWhile
import FxServer.HTTPCodec
import FxServer.TcpConnection
import FxServer.Trace

/-!
# FxServer.HTTPServer — from a request to the bytes of its response

The model of `http_server.cc` and of the three modules that it registers, in
`src/examples/httpserver/src/`, and of `EncodeResponse` in `http_codec.cc`. The modules are
called in the order in which `InitModules` makes them: the validator, the rewriter, the accessor.

What the system says is an input. The files may change at any time, so `os n` is the system as
it is when `n` paths have been given to it. These paths are remembered, also when the request
ends in a fault.

* `onRequest` — the response to a request.
* `encodeResponse`, `writeResponseAndClose` — the bytes that are written for a response.
-/

namespace FxServer

open Trace

/-! ## The validator -/

namespace HTTPModuleRequestValidator

/-- `Process`: a response, or none for a request that is accepted. -/
def process (req : HTTPRequest) : Except Fault (Option HTTPResponse) :=
  let rpath := req.originalRequestPath
  if req.minorVersion > 1 ∨ req.majorVersion > 1 then
    -- the version that is logged is the one of `res`, which is null
    .error .assertion
  else if req.minorVersion = 1 ∧ req.majorVersion = 1 ∧ req.getHeader (ascii "host") = none then
    .ok (some (makeResponse 400))
  else if Search.first (ascii "..") rpath ≠ none ∨ Search.first (ascii "...") rpath ≠ none then
    .ok (some (makeResponse 400))
  else if req.requestType ≠ ascii "GET" then .ok (some (makeResponse 501))
  else .ok none

end HTTPModuleRequestValidator

/-! ## The rewriter -/

namespace HTTPModuleRequestRewrite

def dirAccessSuffixes : List (List UInt8) := [ascii "/index.html"]

def compressedFileExtensions : List (List UInt8) := [ascii ".gz"]

/-- `ResolveRequestPathCandidates`, which never answers the request. -/
def resolveRequestPathCandidates (req : HTTPRequest) : Except Fault HTTPRequest := do
  let path := req.originalRequestPath
  check (path ≠ [])
  if path.getLast? = some 47 then
    .ok { req with requestPathCandidates := req.requestPathCandidates ++ dirAccessSuffixes }
  else
    .ok { req with requestPathCandidates := req.requestPathCandidates ++
      compressedFileExtensions.map (path ++ ·) ++ [path] }

end HTTPModuleRequestRewrite

/-! ## The system -/

/-- The bytes of a C string, without the null byte behind them. -/
structure CString where
  bytes : List UInt8
  noNull : 0 ∉ bytes
deriving DecidableEq

/-- The C string that starts as `s` does: `s.c_str()`. -/
def cStr (s : List UInt8) : CString where
  bytes := s.takeWhile (· ≠ 0)
  noNull hmem := by simpa using List.mem_takeWhile_imp hmem

/-- The errors of `stat` that `CheckFileCanRead` tells apart. -/
inductive Errno where
  | ENOENT
  | ENAMETOOLONG
  | ENOTDIR
  | EACCES
  | other
deriving DecidableEq, Repr

/-- What `stat` gives of a file. -/
structure Stat where
  stMode : BitVec 32
  stUid : ℕ
  stGid : ℕ
  stSize : ℕ

namespace Stat

/-- `S_ISREG` -/
def isReg (sb : Stat) : Bool := sb.stMode &&& 0xF000 = 0x8000

def sIrUsr : BitVec 32 := 0x100

def sIrGrp : BitVec 32 := 0x020

def sIrOth : BitVec 32 := 0x004

end Stat

/-- The system at a moment. -/
structure OS where
  uid : ℕ
  gid : ℕ
  stat : CString → Except Errno Stat
  /-- `open`; `none` is an error -/
  openFile : CString → Option ℕ
  /-- what `pread` reads of a descriptor at most, from the start; `none` is an error -/
  pread : ℕ → ℕ → Option (List UInt8)

/-- A computation that may fail, and the paths that have been given to the system by then. -/
abbrev Accessing (α : Type) := Traced Fault CString α

/-! ## The accessor -/

namespace HTTPModuleFileAccessor

/-- What `CheckFileCanRead` returns. -/
inductive RetCode where
  | kOk
  | kForbidden
  | kNotFound
  | kNotFile
  | kInternalError
deriving DecidableEq, Repr

/-- The size from which a file is sent from its descriptor. -/
def zeroCopyFileMinSize : ℕ := 2 ^ 20

variable (os : ℕ → OS) (basePath : CString)

/-- `base_path_ + file_path`, as the system sees it -/
def absPath (filePath : List UInt8) : CString := cStr (basePath.bytes ++ filePath)

/-- What an error of `stat` means. -/
def statError : Errno → RetCode
  | .ENOENT | .ENAMETOOLONG | .ENOTDIR => .kNotFound
  | .EACCES => .kForbidden
  | .other => .kInternalError

/-- What `CheckFileCanRead` makes of the result of `stat`, with `*byte_size`. -/
def checkStat (os : OS) (path : CString) : RetCode × ℕ :=
  match os.stat path with
  | .error errno => (statError errno, 0)
  | .ok sb =>
    if sb.isReg = false then (.kNotFile, 0)
    else
      let readModeMask :=
        if os.uid = sb.stUid then Stat.sIrUsr
        else if os.gid = sb.stGid then Stat.sIrGrp
        else Stat.sIrOth
      (if sb.stMode &&& readModeMask ≠ 0 then .kOk else .kForbidden, sb.stSize)

/-- `CheckFileCanRead`: the path is given to `stat`. -/
def checkFileCanRead (filePath : List UInt8) : Accessing (RetCode × ℕ) := do
  let now ← note (absPath basePath filePath)
  return checkStat (os now) (absPath basePath filePath)

/-- The loop of `PreProcessing` over the candidates. -/
def findCandidate (req : HTTPRequest) :
    List (List UInt8) → Accessing (HTTPRequest × Option HTTPResponse)
  | [] => return (req, some (makeResponse 404))
  | path :: candidates => do
    let (ret, _) ← checkFileCanRead os basePath path
    match ret with
    | .kOk => return ({ req with realRequestPath := path }, none)
    | .kNotFound => findCandidate req candidates
    | .kForbidden => return (req, some (makeResponse 403))
    | .kNotFile => return (req, some (makeResponse 400))
    | .kInternalError => return (req, some (makeResponse 500))

/-- `PreProcessing`: the first candidate that can be read, or a response that says why there
is none. -/
def preProcessing (req : HTTPRequest) : Accessing (HTTPRequest × Option HTTPResponse) := do
  check (req.requestPathCandidates ≠ [])
  findCandidate os basePath req req.requestPathCandidates

/-- What `ReadFile` does with a file that has been opened. -/
def readOpened (now : ℕ) (fd byteSize : ℕ) (res : HTTPResponse) : Except Fault HTTPResponse :=
  if zeroCopyFileMinSize ≤ byteSize then .ok (res.setZeroCopyFd fd)
  else
    match (os now).pread fd byteSize with
    -- the body of `GetBodyBuf` is sent as it is, as many zero bytes
    | none => .ok (res.setBody (List.replicate byteSize 0))
    | some bytes => do
      check (bytes.length = byteSize)
      .ok (res.setBody bytes)

/-- `ReadFile`: the path is given to `stat` once more, and then to `open`. -/
def readFile (req : HTTPRequest) (res : HTTPResponse) : Accessing HTTPResponse := do
  let (ret, byteSize) ← checkFileCanRead os basePath req.realRequestPath
  check (ret = .kOk)
  let now ← note (absPath basePath req.realRequestPath)
  match (os now).openFile (absPath basePath req.realRequestPath) with
  -- the error is only logged: a response without a body
  | none => return res
  | some fd => readOpened os now fd byteSize res

end HTTPModuleFileAccessor

/-! ## The bytes of a response -/

/-- `status_to_reason_`; a status that it lacks is added with an empty reason. -/
def HTTPCodec.statusToReason : ℕ → List UInt8
  | 301 => ascii "Moved Permanently"
  | 302 => ascii "Found"
  | 303 => ascii "See Other"
  | 304 => ascii "Not Modified"
  | 305 => ascii "Use Proxy"
  | 307 => ascii "Temporary Redirect"
  | 400 => ascii "Bad Request"
  | 401 => ascii "Unauthorized"
  | 402 => ascii "Payment Required"
  | 403 => ascii "Forbidden"
  | 404 => ascii "Not Found"
  | 405 => ascii "Method Not Allowed"
  | 406 => ascii "Not Acceptable"
  | 407 => ascii "Proxy Authentication Required"
  | 408 => ascii "Request Time-out"
  | 409 => ascii "Conflict"
  | 410 => ascii "Gone"
  | 411 => ascii "Length Required"
  | 412 => ascii "Precondition Failed"
  | 413 => ascii "Request Entity Too Large"
  | 414 => ascii "Request-URI Too Large"
  | 415 => ascii "Unsupported Media Type"
  | 416 => ascii "Requested range not satisfiable"
  | 417 => ascii "Expectation Failed"
  | 500 => ascii "Internal Server Error"
  | 501 => ascii "Not Implemented"
  | 502 => ascii "Bad Gateway"
  | 503 => ascii "Service Unavailable"
  | 504 => ascii "Gateway Time-out"
  | 505 => ascii "HTTP Version not supported"
  | _ => []

/-- `EncodeResponse`, at the time `now`. -/
def HTTPCodec.encodeResponse (res : HTTPResponse) (now : Ptime) : List UInt8 :=
  -- `body_length_` decides, also for a body that is sent from a file
  let hasBody := res.bodyLength ≠ 0
  let reply := res.httpVersion ++ ascii " " ++ formatUnsigned res.status ++ ascii " " ++
    statusToReason res.status ++ headerSep
  let reply := reply ++ ascii "Date: " ++ rfc1123Time now ++ headerSep
  let reply := reply ++ ascii "Server: FX Server/0.0.1" ++ headerSep
  let reply := reply ++ ascii "Content-Type: text/html" ++ headerSep
  let reply := reply ++ ascii "Connection: close" ++ headerSep
  if hasBody then
    reply ++ ascii "Content-Length: " ++ formatUnsigned res.bodyLength ++ headerSep ++ headerSep
  else reply

/-! ## The server -/

namespace HTTPServer

/-- The codec of a server, which has both callbacks. -/
def codec : HTTPCodec := ⟨true, true⟩

/-- `OnRequest` before the response is written. -/
def onRequest (os : ℕ → OS) (basePath : CString) (r : HTTPRequest) : Accessing HTTPResponse := do
  match ← HTTPModuleRequestValidator.process r with
  | some res => return res
  | none =>
    let req ← HTTPModuleRequestRewrite.resolveRequestPathCandidates r
    match ← HTTPModuleFileAccessor.preProcessing os basePath req with
    | (_, some res) => return res
    | (req, none) => HTTPModuleFileAccessor.readFile os basePath req (.new 200)

/-- `WriteResponseAndClose` before it sets the callback. -/
def writeResponseAndClose (files : Files) (conn : TcpConnection) (res : HTTPResponse)
    (now : Ptime) : Except Fault TcpConnection := do
  let conn ← conn.write (HTTPCodec.encodeResponse res now)
  if res.bodyLength ≠ 0 then
    if res.isZeroCopyBody then
      .ok (conn.zeroCopyWrite files res.zeroCopyFd 0 res.bodyLength)
    else conn.write res.body
  else .ok conn

end HTTPServer

end FxServer
