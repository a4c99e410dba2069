import Mathlib.Data.List.AList
import Mathlib.Data.Vector.Basic
import FxServer.Basic
import FxServer.Search

/-!
# FxServer.HTTP — requests and responses

The model of `http_request.cc`, `http_response.cc`, `http_request_parsing_state.h` and
`http_utilities.cc` in `src/examples/httpserver/`. Strings are lists of bytes. What is called of
boost is left open: `Boost.std` is what it does for the strings that matter.

The numbers and the date in a response follow the documented formats of the library functions
that write them; every other text stands in the source.
-/

namespace FxServer

/-- The bytes of a string literal. -/
def ascii (s : String) : List UInt8 := s.toList.map fun ch => UInt8.ofNat ch.toNat

/-- What the code calls of boost. -/
structure Boost where
  /-- `SplitString(src, sep, res)`, a loop over a `split_iterator` with `first_finder(sep)` -/
  splitString : List UInt8 → List UInt8 → List (List UInt8)
  /-- `lexical_cast<unsigned>`; `none` is `bad_lexical_cast` -/
  lexicalCast : List UInt8 → Option ℕ
  /-- `algorithm::to_lower` -/
  toLower : List UInt8 → List UInt8

namespace Boost

/-- The number that decimal digits write; `none` when there is another byte, or no digit. -/
def decimal : List UInt8 → Option ℕ
  | [] => none
  | digits => digits.foldl (fun n digit => n.bind fun n =>
      if 48 ≤ digit ∧ digit ≤ 57 then some (10 * n + (digit - 48).toNat) else none) (some 0)

/-- Digits behind an optional sign, where a minus counts down from `2 ^ 32`. -/
def lexicalCastUnsigned (s : List UInt8) : Option ℕ :=
  match s with
  | 43 :: digits => (decimal digits).filter (· < 2 ^ 32)
  | 45 :: digits => ((decimal digits).filter (· < 2 ^ 32)).map fun n => (2 ^ 32 - n) % 2 ^ 32
  | digits => (decimal digits).filter (· < 2 ^ 32)

/-- The functions of boost, in the C locale. -/
def std : Boost where
  splitString src sep := Search.split sep src
  lexicalCast := lexicalCastUnsigned
  toLower s := s.map fun ch => if 65 ≤ ch ∧ ch ≤ 90 then ch + 32 else ch

end Boost

/-! ## Numbers and times as text -/

/-- `%u` of `boost::format`, which follows `printf`: the decimal digits, without padding. -/
def formatUnsigned (n : ℕ) : List UInt8 :=
  (Nat.toDigits 10 n).map fun ch => UInt8.ofNat ch.toNat

/-- A number of at least two digits, as `%d`, `%H`, `%M` and `%S` of `time_facet` write it. -/
def formatPadded (n : ℕ) : List UInt8 :=
  if n < 10 then ascii "0" ++ formatUnsigned n else formatUnsigned n

/-- A `ptime`, as far as it is written. -/
structure Ptime where
  /-- counted from Sunday -/
  weekday : Fin 7
  day : ℕ
  /-- counted from January -/
  month : Fin 12
  year : ℕ
  hours : ℕ
  minutes : ℕ
  seconds : ℕ

def weekdayNames : List.Vector (List UInt8) 7 :=
  ⟨["Sun", "Mon", "Tue", "Wed", "Thu", "Fri", "Sat"].map ascii, rfl⟩

def monthNames : List.Vector (List UInt8) 12 :=
  ⟨["Jan", "Feb", "Mar", "Apr", "May", "Jun", "Jul", "Aug", "Sep", "Oct", "Nov", "Dec"].map ascii,
    rfl⟩

/-- `Rfc1123TimeNow`, at the time `now`: what a `time_facet` writes for the format
`%a, %d %b %Y %H:%M:%S GMT` in the C locale, with the names of days and months of three letters. -/
def rfc1123Time (now : Ptime) : List UInt8 :=
  weekdayNames.get now.weekday ++ ascii ", " ++ formatPadded now.day ++ ascii " " ++
    monthNames.get now.month ++ ascii " " ++ formatUnsigned now.year ++ ascii " " ++
    formatPadded now.hours ++ ascii ":" ++ formatPadded now.minutes ++ ascii ":" ++
    formatPadded now.seconds ++ ascii " GMT"

/-! ## Requests -/

/-- The fields of an `HTTPRequest`. -/
structure HTTPRequest where
  headerLength : ℕ
  bodyLength : ℕ
  majorVersion : ℕ
  minorVersion : ℕ
  body : List UInt8
  requestType : List UInt8
  originalRequestPath : List UInt8
  realRequestPath : List UInt8
  requestPathCandidates : List (List UInt8)
  /-- a `std::map` -/
  headers : AList fun _ : List UInt8 => List UInt8
deriving DecidableEq

namespace HTTPRequest

/-- A request of which nothing has been read. -/
def new : HTTPRequest where
  headerLength := 0
  bodyLength := 0
  majorVersion := 0
  minorVersion := 0
  body := []
  requestType := []
  originalRequestPath := []
  realRequestPath := []
  requestPathCandidates := []
  headers := ∅

/-- `GetHeader`: the value under the name, if there is one. -/
def getHeader (r : HTTPRequest) (headerName : List UInt8) : Option (List UInt8) :=
  r.headers.lookup headerName

/-- `AddHeader`: the first value of a key stays. -/
def addHeader (r : HTTPRequest) (key val : List UInt8) : HTTPRequest :=
  if key ∈ r.headers then r else { r with headers := r.headers.insert key val }

end HTTPRequest

/-! ## Responses -/

/-- The fields of an `HTTPResponse`. The length that is announced is that of the body in
memory, also when the body is to be sent from a descriptor. -/
structure HTTPResponse where
  status : ℕ
  majorVersion : ℕ
  minorVersion : ℕ
  bodyLength : ℕ
  zeroCopyFd : ℤ
  isZeroCopyBody : Bool
  body : List UInt8
  length_body : body.length = bodyLength
  /-- the descriptor is one that `open` has given -/
  fd_nonneg : isZeroCopyBody = true → 0 ≤ zeroCopyFd
deriving DecidableEq

namespace HTTPResponse

def new (status : ℕ) : HTTPResponse where
  status
  majorVersion := 1
  minorVersion := 0
  bodyLength := 0
  zeroCopyFd := -1
  isZeroCopyBody := false
  body := []
  length_body := rfl
  fd_nonneg := by simp

/-- The version as the status line has it. -/
def httpVersion (r : HTTPResponse) : List UInt8 :=
  ascii "HTTP/" ++ formatUnsigned r.majorVersion ++ ascii "." ++ formatUnsigned r.minorVersion

/-- `GetBodyBuf(buf.length)`, and the bytes `buf` stored there. -/
def setBody (r : HTTPResponse) (buf : List UInt8) : HTTPResponse :=
  { r with body := buf, bodyLength := buf.length, length_body := rfl }

/-- `set_zero_copy_fd`, which leaves `body_length_` alone. -/
def setZeroCopyFd (r : HTTPResponse) (fd : ℕ) : HTTPResponse :=
  { r with
    zeroCopyFd := fd
    isZeroCopyBody := true
    fd_nonneg := fun _ => Int.natCast_nonneg fd }

end HTTPResponse

/-- `MakeResponse` -/
def makeResponse (httpRetCode : ℕ) : HTTPResponse := .new httpRetCode

/-! ## The state of parsing -/

/-- What a function of the parser tells the loop of `OnMessage`. -/
inductive ParseResult where
  | kParseOK
  | kParseNeedMore
  | kParseError
deriving DecidableEq, Repr

/-- `status` of the parsing state. -/
inductive StateType where
  | kInit
  | kParsingRequestLine
  | kParsingRequestHeader
  | kParsingRequestBody
  | kParsingDone
deriving DecidableEq, Repr

/-- The functions that `func` can be bound to. -/
inductive StateFunc where
  | startParsing
  | readRequestLine
  | readRequestHeader
  | readRequestBody
deriving DecidableEq, Repr

/-- The context of a connection between two calls of `OnMessage`. -/
structure HTTPRequestParsingState where
  status : StateType
  /-- `none` is `NULL` -/
  func : Option StateFunc
  req : HTTPRequest
  res : Option HTTPResponse
deriving DecidableEq

end FxServer
