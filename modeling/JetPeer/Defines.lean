/-
JetPeer/Defines.lean

`include/jet/defines.h`: the words of the protocol, the limits and the plain
data types the peer passes around, with the JSON-RPC member names of libhbk's
`jsonrpc_defines.h` and the network byte order of the length in front of
every telegram.

User supplied functions (`stateCallback_t`, `methodCallback_t`,
`fetchCallback_t`, `responseCallback_t`) are held by the tables as opaque
names; what they do when called is a parameter of the modules that call them.
An empty `std::function` is `none`.
-/
import JetPeer.Framing
import JetPeer.Json
import JetPeer.Maps

namespace JetPeer

/-! ### JSON-RPC members (`hbk/jsonrpc/jsonrpc_defines.h`) -/

namespace Jsonrpc

@[simp] def jsonrpc : String := "jsonrpc"
@[simp] def method : String := "method"
@[simp] def params : String := "params"
@[simp] def id : String := "id"
@[simp] def result : String := "result"
@[simp] def err : String := "error"
@[simp] def code : String := "code"
@[simp] def message : String := "message"
@[simp] def data : String := "data"

/-- JSON-RPC 2.0, internal error. -/
def internalError : Int := -32603

end Jsonrpc

/-! ### Words of the jet protocol -/

namespace Word

@[simp] def name : String := "name"
@[simp] def dbg : String := "debug"
@[simp] def path : String := "path"
@[simp] def args : String := "args"
@[simp] def value : String := "value"
@[simp] def timeout : String := "timeout"
@[simp] def fetchOnly : String := "fetchOnly"
@[simp] def event : String := "event"
@[simp] def contains : String := "contains"
@[simp] def startsWith : String := "startsWith"
@[simp] def endsWith : String := "endsWith"
@[simp] def equals : String := "equals"
@[simp] def equalsNot : String := "equalsNot"
@[simp] def containsAllOf : String := "containsAllOf"
@[simp] def caseInsensitive : String := "caseInsensitive"
@[simp] def add : String := "add"
@[simp] def remove : String := "remove"
@[simp] def fetch : String := "fetch"
@[simp] def unfetch : String := "unfetch"
@[simp] def call : String := "call"
@[simp] def set : String := "set"
@[simp] def get : String := "get"
@[simp] def config : String := "config"
@[simp] def info : String := "info"
@[simp] def authenticate : String := "authenticate"
@[simp] def change : String := "change"
@[simp] def warning : String := "warning"
@[simp] def user : String := "user"
@[simp] def password : String := "password"
@[simp] def access : String := "access"
@[simp] def fetchGroups : String := "fetchGroups"
@[simp] def setGroups : String := "setGroups"
@[simp] def callGroups : String := "callGroups"

end Word

/-- `MAX_MESSAGE_SIZE`. -/
def maxMessageSize : ℕ := 262144

/-! ### Callbacks, matchers, results -/

/-- `fetchId_t` is a 32 bit `int`. -/
abbrev FetchId := Int

/-- The name of a user supplied function. -/
abbrev Callback := ℕ

/-- `matcher_t`. -/
structure Matcher where
  caseInsensitive : Bool := false
  contains : String := ""
  startsWith : String := ""
  endsWith : String := ""
  equals : String := ""
  equalsNot : String := ""
  containsAllOf : List String := []
  deriving DecidableEq

/-- `fetcher_t`. -/
structure Fetcher where
  callback : Option Callback
  matcher : Matcher
  deriving DecidableEq

/-- `SetStateResult`; the code is the underlying value of `WarningCode`. -/
structure SetStateResult where
  code : Int := 0
  message : String := ""

/-- `SetStateCbResult`, what a state callback returns. -/
structure SetStateCbResult where
  value : Json := .null
  result : SetStateResult := {}

/-! ### Exceptions -/

/-- `hbk::exception::jsonrpcException`. -/
structure JsonrpcException where
  code : Int
  message : String
  deriving DecidableEq

/-- `jsoncpprpcException`. -/
structure JsoncpprpcException where
  code : Int
  message : String
  data : Json := .null

/-- `response[ERR][CODE] = code; response[ERR][MESSAGE] = message`. -/
def withError (response : Json) (code : Int) (message : String) : Json :=
  (response.modify Jsonrpc.err fun e => e.set Jsonrpc.code (.int code)).modify
    Jsonrpc.err fun e => e.set Jsonrpc.message (.string message)

/-- `jsoncpprpcException::json()`. -/
def JsoncpprpcException.json (e : JsoncpprpcException) : Json :=
  (withError .null e.code e.message).modify Jsonrpc.err fun d => d.set Jsonrpc.data e.data

/-- What a user supplied function may throw, as far as the catch ladders of
the peer tell it apart. -/
inductive Thrown where
  | jsoncpprpc (e : JsoncpprpcException)
  | jsonrpc (e : JsonrpcException)
  | std (what : String)
  | unknown

/-- How a user supplied function ends. -/
abbrev Outcome (α : Type*) := Except Thrown α

/-! ### The three registries of a peer -/

/-- `m_stateCallbacks`, `m_methodCallbacks` and `m_fetchers`. -/
structure Tables where
  stateCallbacks : AList fun _ : String => Option Callback := ∅
  methodCallbacks : AList fun _ : String => Option Callback := ∅
  fetchers : AList fun _ : FetchId => Fetcher := ∅

/-! ### Network byte order -/

/-- The four bytes of `htonl(n)` in memory order. -/
def htonl (n : ℕ) : List UInt8 :=
  [UInt8.ofNat (n / 2 ^ 24), UInt8.ofNat (n / 2 ^ 16), UInt8.ofNat (n / 2 ^ 8), UInt8.ofNat n]

/-- `ntohl` of the bytes of a length buffer. -/
def ntohl (bs : List UInt8) : ℕ := bs.foldl (fun n b => n * 2 ^ 8 + b.toNat) 0

theorem ntohl_htonl {n : ℕ} (h : n < 2 ^ 32) : ntohl (htonl n) = n := by
  simp only [htonl, ntohl, List.foldl_cons, List.foldl_nil, UInt8.toNat_ofNat']
  omega

/-- `sizeof(m_bigEndianLengthBuffer)`. -/
def lengthBufferSize : ℕ := 4

/-- The framing of jet telegrams: a 32 bit big-endian length, at most
`MAX_MESSAGE_SIZE`. -/
def lengthHeader : Framing.Header UInt8 where
  size := lengthBufferSize
  size_pos := by decide
  limit := maxMessageSize
  encode := htonl
  decode := ntohl
  length_encode := fun _ => rfl
  decode_encode := fun n hn => ntohl_htonl (hn.trans_lt (by decide))

end JetPeer
