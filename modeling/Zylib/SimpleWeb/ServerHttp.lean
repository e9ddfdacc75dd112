import Zylib.Lib.Pieces
import Zylib.SimpleWeb.Header

/-! The server of server_http.hpp on one connection: it reads a request, finds the function that answers it, sends what that has
    written and reads the next request. -/

namespace Zylib.SimpleWeb
open Pieces (readUntil readExactly Source)

/-- `content` is what is in the streambuf behind what has been parsed. -/
structure Request where
  method : Bytes
  path : Bytes
  http_version : Bytes
  header : Header
  content : Bytes
deriving DecidableEq

/-- A resource function: what it has written when the last reference to the response is released. -/
abbrev Handler := Request → Bytes

/-- `parse_request`; with the error `refused` it returns false. -/
def parse_request (stream : Bytes) : Except Fault (Request × Stream) :=
  let (line, s) := getline { bytes := stream } []
  match find line 32 0 with
  | none => .error .refused
  | some method_end =>
    match find line 32 (method_end + 1) with
    | none => .error .refused
    | some path_end =>
      match find line 47 (path_end + 1) with
      | none => .error .refused
      | some protocol_end =>
        if substr line (path_end + 1) (protocol_end - path_end - 1 : Int) ≠ text "HTTP" then .error .refused
        else
          let (next, rest) := getline s line
          match readFields next rest [] with
          | .error e => .error e
          | .ok (header, rest) =>
            .ok
              ({ method := substr line 0 method_end
                 path := substr line (method_end + 1) (path_end - method_end - 1 : Int)
                 http_version := substr line (protocol_end + 1) (line.length - protocol_end - 2 : Int)
                 header
                 content := rest.bytes }, rest)

/-- `read_request_and_content`, up to `find_resource`. -/
def read_request_and_content (pieces : List Bytes) : Except Fault Request :=
  match readUntil (crlf ++ crlf) [] pieces with
  | none => .error .closed
  | some (bytes_transferred, s) =>
    let num_additional_bytes := s.buffer.length - bytes_transferred
    match parse_request s.buffer with
    | .error e => .error e
    | .ok (request, rest) =>
      match request.header.find (text "Content-Length") with
      | none => .ok request
      | some value =>
        match stoull value with
        | none => .error .refused
        | some content_length =>
          if content_length > num_additional_bytes then
            match readExactly (content_length - num_additional_bytes) rest.bytes s.pieces with
            | none => .error .closed
            | some s => .ok { request with content := s.buffer }
          else .ok request

/-! ### Resources -/

/-- The functions for each method, each with the regular expression for its path. -/
abbrev OptResource := List (Bytes × List (Bytes × Handler))

/-- The first loop of `start` puts the function with those of its method, or begins a new group. -/
def insertResource (method : Bytes) (entry : Bytes × Handler) : OptResource → OptResource
  | [] => [(method, [entry])]
  | res :: opt_resource =>
    if method = res.1 then (res.1, res.2 ++ [entry]) :: opt_resource else res :: insertResource method entry opt_resource

/-- `opt_resource` as `start` leaves it. `resource` has the functions of each regular expression by their methods, in the order of the
    iterators. -/
def start (resource : List (Bytes × List (Bytes × Handler))) : OptResource :=
  resource.foldl
    (fun opt_resource res =>
      res.2.foldl (fun opt_resource res_method => insertResource res_method.1 (res.1, res_method.2) opt_resource) opt_resource)
    []

structure Server where
  opt_resource : OptResource
  default_resource : List (Bytes × Handler)
  /-- `boost::regex_match` of a path. -/
  regex_match : Bytes → Bytes → Bool
  /-- The number of the version is above 1.05 (`stof` does not throw). -/
  later : Bytes → Bool

namespace Server

/-- `find_resource`, `none` if no function answers the request. -/
def find_resource (server : Server) (request : Request) : Option Handler :=
  match server.opt_resource.findSome? fun res =>
    if request.method = res.1 then
      res.2.findSome? fun res_path => if server.regex_match request.path res_path.1 then some res_path.2 else none
    else none with
  | some handler => some handler
  | none => server.default_resource.lookup request.method

/-- The test in the callback of `send`: the next request is read from the same connection. -/
def keeps (server : Server) (request : Request) : Bool :=
  !(request.header.any fun field => iequals field.1 (text "Connection") && iequals field.2 (text "close")) &&
    server.later request.http_version

/-- What the server sends for a request that comes in the pieces, and whether it reads another one then. Without an answer it drops
    the connection. -/
def answer (server : Server) (pieces : List Bytes) : Except Fault (Bytes × Bool) :=
  match read_request_and_content pieces with
  | .error e => .error e
  | .ok request =>
    match server.find_resource request with
    | none => .error .refused
    | some handler => .ok (handler request, server.keeps request)

end Server

/-! ### The answers of HttpServer.cpp -/

/-- What `send200` writes. -/
def send200 (s : Bytes) : Bytes :=
  text "HTTP/1.0 200 OK" ++ crlf ++ text "Content-Length: " ++ decimal s.length ++ crlf ++ crlf ++ s

/-- What `httpDefaultPost` and `httpDefaultGet` write. -/
def httpDefault : Bytes :=
  let content := text ("<HTML><TITLE>Not Found</TITLE>" ++ "<BODY><P>The server could not fulfill<br>" ++
    "your request because the resource specified is unavailable or nonexistent." ++ "</BODY></HTML>")
  text "HTTP/1.0 404 NOT FOUND" ++ crlf ++ text "Content-Length: " ++ decimal content.length ++ crlf ++ crlf ++ content

end Zylib.SimpleWeb
