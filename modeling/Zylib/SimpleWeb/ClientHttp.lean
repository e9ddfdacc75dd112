import Zylib.SimpleWeb.ServerHttp

/-! The client of client_http.hpp: it writes a request and reads the response, and makes a new connection for the next request after
    an error. -/

namespace Zylib.SimpleWeb
open Pieces (readUntil readExactly)

/-- The arguments of `request`. -/
structure Call where
  request_type : Bytes
  path : Bytes
  content : Bytes := []
  header : List (Bytes × Bytes) := []

structure Response where
  http_version : Bytes := []
  status_code : Bytes := []
  header : Header := []
  content : Bytes := []
deriving DecidableEq

/-- A line of a header. -/
def writeField (h : Bytes × Bytes) : Bytes := h.1 ++ text ": " ++ h.2 ++ crlf

def Call.corrected_path (call : Call) : Bytes := if call.path = [] then text "/" else call.path

/-- What `request` puts in the write buffer. -/
def Call.write_buffer (call : Call) (host : Bytes) : Bytes :=
  call.request_type ++ text " " ++ call.corrected_path ++ text " HTTP/1.1" ++ crlf ++
    writeField (text "Host", host) ++ call.header.flatMap writeField ++
    (if call.content.length > 0 then writeField (text "Content-Length", decimal call.content.length) else []) ++ crlf

/-- What `request` sends. -/
def Call.sent (call : Call) (host : Bytes) : Bytes := call.write_buffer host ++ call.content

/-- The part of `host_port` that is the host. -/
def hostOf (host_port : Bytes) : Bytes :=
  match find host_port 58 0 with
  | none => host_port
  | some host_end => substr host_port 0 host_end

/-! ### `request_read` -/

/-- `parse_response_header`; the content is what is left of the stream. -/
def parse_response_header (stream : Bytes) : Except Fault Response :=
  let (line, s) := getline { bytes := stream } []
  match find line 32 0 with
  | none => .ok { content := s.bytes }
  | some version_end =>
    let http_version := if 5 < line.length then substr line 5 (version_end - 5 : Int) else []
    let status_code :=
      if version_end + 1 < line.length then substr line (version_end + 1) (line.length - (version_end + 1) - 1 : Int) else []
    let (next, rest) := getline s line
    match readFields next rest [] with
    | .error e => .error e
    | .ok (header, rest) => .ok { http_version, status_code, header, content := rest.bytes }

/-- A pass of the loop over the chunks: the size of the chunk, its data, and what is then in the content buffer and still to come. -/
def readChunk (buffer : Bytes) (pieces : List Bytes) : Except Fault (Int × Bytes × Bytes × List Bytes) :=
  match readUntil crlf buffer pieces with
  | none => .error .closed
  | some (bytes_transferred, s) =>
    let (line, content) := getline { bytes := s.buffer } []
    let bytes_transferred : Int := bytes_transferred - (line.length + 1)
    match stol16 line.dropLast with
    | none => .error .refused
    | some length =>
      let num_additional_bytes : Int := content.bytes.length - bytes_transferred
      let s :=
        if 2 + length > num_additional_bytes then
          readExactly (2 + length - num_additional_bytes).toNat content.bytes s.pieces
        else some ⟨content.bytes, s.pieces⟩
      match s with
      | none => .error .closed
      | some s =>
        -- `resize` throws for a negative length.
        if length < 0 then .error .refused
        else .ok (length, s.buffer.take length.toNat, s.buffer.drop (length.toNat + 2), s.pieces)

/-- The loop over the chunks. The decoded content is put behind what is left in the content buffer; `fuel` is a bound of its passes. -/
def readChunks : ℕ → Bytes → Bytes → List Bytes → Except Fault Bytes
  | 0, _, _, _ => .error .endless
  | fuel + 1, content, buffer, pieces =>
    match readChunk buffer pieces with
    | .error e => .error e
    | .ok (length, data, buffer, pieces) =>
      if length > 0 then readChunks fuel (content ++ data) buffer pieces else .ok (buffer ++ (content ++ data))

/-- `request_read`. With an error it throws and the next request makes a new connection. -/
def request_read (pieces : List Bytes) : Except Fault Response :=
  match readUntil (crlf ++ crlf) [] pieces with
  | none => .error .closed
  | some (bytes_transferred, s) =>
    let num_additional_bytes := s.buffer.length - bytes_transferred
    match parse_response_header s.buffer with
    | .error e => .error e
    | .ok response =>
      match response.header.find (text "Content-Length") with
      | some value =>
        match stoull value with
        | none => .error .refused
        | some content_length =>
          if content_length > num_additional_bytes then
            match readExactly (content_length - num_additional_bytes) response.content s.pieces with
            | none => .error .closed
            | some s => .ok { response with content := s.buffer }
          else .ok response
      | none =>
        if response.header.find (text "Transfer-Encoding") = some (text "chunked") then
          -- Each pass takes at least a byte.
          match readChunks (response.content.length + s.pieces.flatten.length + 1) [] response.content s.pieces with
          | .error e => .error e
          | .ok content => .ok { response with content }
        else .ok response

/-! ### Conversations -/

/-- A call, and how what is sent for it and what is sent in answer to it come through the network. -/
structure Exchange where
  call : Call
  up : List ℕ
  down : List ℕ

/-- The calls of a client one after another, with what they return. `reading` tells that the server reads from the client's connection.
    Once the server has closed it, a call throws and the next one makes a new connection. -/
def converse (server : Server) (host : Bytes) : Bool → List Exchange → List (Except Fault Response)
  | _, [] => []
  | false, _ :: exchanges => .error .closed :: converse server host true exchanges
  | true, e :: exchanges =>
    match server.answer (Pieces.cut e.up (e.call.sent host)) with
    | .error _ => .error .closed :: converse server host true exchanges
    | .ok (answer, keeps) =>
      match request_read (Pieces.cut e.down answer) with
      | .error f => .error f :: converse server host true exchanges
      | .ok response => .ok response :: converse server host keeps exchanges

end Zylib.SimpleWeb
