import Nao.Kernel.Strings

/-!
# The HTTP client — definitions

`httpc_create_request_string` and `httpc_init_connection_common` of lwIP's `http_client.c`, as far as
they concern the text of the request, and what `httpc_tcp_connected` sends of it. `snprintf` is
the kernel's.

A server name is a string; the code asserts that it is there where it is used. What the
allocators answer is an argument.
-/

namespace Nao.HttpClient

open SysLib Kernel

/-- `httpc_result_t`. -/
inductive HttpcResult where
  | ok | errUnknown | errConnect | errHostname | errClosed | errTimeout | errSvrResp | errMem
  | localAbort | errContentLen
  deriving DecidableEq, Repr

/-- The value of a result in C. -/
def HttpcResult.code : HttpcResult → Nat
  | .ok => 0
  | .errUnknown => 1
  | .errConnect => 2
  | .errHostname => 3
  | .errClosed => 4
  | .errTimeout => 5
  | .errSvrResp => 6
  | .errMem => 7
  | .localAbort => 8
  | .errContentLen => 9

/-- `HTTPC_CLIENT_AGENT`. -/
def clientAgent : List UInt8 := lit "lwIP/2.2.0 (http://savannah.nongnu.org/projects/lwip)"

/-- `HTTP_DEFAULT_PORT`. -/
def httpDefaultPort : BitVec 16 := 80

/-- `HTTPC_REQ_11`, line by line. -/
def req11 : List UInt8 :=
  lit "GET %s HTTP/1.1\r\n" ++ lit "User-Agent: %s\r\n" ++ lit "Accept: */*\r\n"
    ++ lit "Connection: Close\r\n" ++ lit "\r\n"

/-- `HTTPC_REQ_11_HOST`. -/
def req11Host : List UInt8 :=
  lit "GET %s HTTP/1.1\r\n" ++ lit "User-Agent: %s\r\n" ++ lit "Accept: */*\r\n"
    ++ lit "Host: %s\r\n" ++ lit "Connection: Close\r\n" ++ lit "\r\n"

/-- `HTTPC_REQ_11_PROXY`. -/
def req11Proxy : List UInt8 :=
  lit "GET http://%s%s HTTP/1.1\r\n" ++ lit "User-Agent: %s\r\n" ++ lit "Accept: */*\r\n"
    ++ lit "Host: %s\r\n" ++ lit "Connection: Close\r\n" ++ lit "\r\n"

/-- `HTTPC_REQ_11_PROXY_PORT`. -/
def req11ProxyPort : List UInt8 :=
  lit "GET http://%s:%d%s HTTP/1.1\r\n" ++ lit "User-Agent: %s\r\n" ++ lit "Accept: */*\r\n"
    ++ lit "Host: %s\r\n" ++ lit "Connection: Close\r\n" ++ lit "\r\n"

/-- What the request depends on: the parameters of `httpc_init_connection_common`, with
`use_proxy` and `proxy_port` of the settings. -/
structure Target where
  useProxy   : Bool
  proxyPort  : BitVec 16
  serverName : List UInt8
  serverPort : BitVec 16
  uri        : List UInt8
  useHost    : Bool

def httpcCreateRequestString (t : Target) (buffer : Mem) (bufferSize : Nat) : Mem × Int :=
  let host := Arg.str (some t.serverName)
  let uri := Arg.str (some t.uri)
  let agent := Arg.str (some clientAgent)
  if t.useProxy then
    if t.serverPort ≠ httpDefaultPort then
      snprintf buffer bufferSize req11ProxyPort
        [host, .word (t.serverPort.setWidth 32), uri, agent, host]
    else snprintf buffer bufferSize req11Proxy [host, uri, agent, host]
  else if t.useHost then snprintf buffer bufferSize req11Host [uri, agent, host]
  else snprintf buffer bufferSize req11 [uri, agent]

/-- `ERR_MEM`, `ERR_VAL`. -/
inductive Err where
  | mem | val
  deriving DecidableEq, Repr

/-- What the allocators answer; `payload` is what the new buffer happens to hold. -/
structure Allocations where
  memMalloc  : Bool
  pbufAlloc  : Bool
  inOnePiece : Bool
  altcpNew   : Bool
  payload    : Mem

/-- `req->request` (its length and its payload) and `req->remote_port`. -/
structure Request where
  len        : Nat
  payload    : Mem
  remotePort : BitVec 16

/-- `httpc_init_connection_common`. The size of `httpc_state_t` fits into `mem_size_t`. -/
def httpcInitConnectionCommon (a : Allocations) (t : Target) : Except Err Request :=
  -- the buffer is `NULL`, which a size of 0 leaves alone
  let reqLen := (httpcCreateRequestString t (fun _ => 0) 0).2
  if reqLen < 0 ∨ reqLen > 0xFFFF then .error .val
  else if reqLen + 1 > 0xFFFF then .error .val
  else if !a.memMalloc then .error .mem
  else if !a.pbufAlloc then .error .mem
  else if !a.inOnePiece then .error .mem
  else if !a.altcpNew then .error .mem
  else
    let (payload, reqLen2) := httpcCreateRequestString t a.payload (reqLen + 1).toNat
    if reqLen2 ≠ reqLen then .error .val
    else
      .ok { len := (reqLen + 1).toNat, payload
            remotePort := if t.useProxy then t.proxyPort else t.serverPort }

/-- What `httpc_tcp_connected` gives to `altcp_write`; the last character is the terminator. -/
def Request.sent (r : Request) : List UInt8 := r.payload.slice 0 (r.len - 1)

end Nao.HttpClient
