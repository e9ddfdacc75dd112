import Zylib.Theorems.SimpleWeb.Header

/-! The server reads what the client has sent for a call, however it comes, and whatever it is sent it neither loops nor answers a
    request whose content has not come. The table of `start` has the same answers as the resources. -/

namespace Zylib.SimpleWeb
open Pieces (endOf endOf_spec readUntil readUntil_front readUntil_some readExactly_spec)

variable {call : Call} {host : Bytes}

/-! ### The request of a call -/

/-- The fields that `request` writes. -/
def Call.fields (call : Call) (host : Bytes) : Header :=
  (text "Host", host) :: call.header ++
    (if call.content.length > 0 then [(text "Content-Length", decimal call.content.length)] else [])

/-- The first line, without its end. -/
def Call.line (call : Call) : Bytes := call.request_type ++ 32 :: (call.corrected_path ++ 32 :: (text "HTTP" ++ 47 :: text "1.1"))

/-- What the server has to read. -/
def Call.received (call : Call) (host : Bytes) : Request where
  method := call.request_type
  path := call.corrected_path
  http_version := text "1.1"
  header := call.fields host
  content := call.content

/-- The arguments can be told apart in what is written: no blank in the type and the path, no colon in a name, no line feed; and the
    length of the content is given by `request` alone. -/
structure Sendable (call : Call) (host : Bytes) : Prop where
  request_type : 32 ∉ call.request_type ∧ 10 ∉ call.request_type
  path : 32 ∉ call.path ∧ 10 ∉ call.path
  host : 10 ∉ host
  header : ∀ h ∈ call.header, Writable h ∧ iequals h.1 (text "Content-Length") = false
  content : call.content.length < 2 ^ 64

theorem Sendable.corrected_path (h : Sendable call host) : 32 ∉ call.corrected_path ∧ 10 ∉ call.corrected_path := by
  unfold Call.corrected_path
  split
  · decide
  · exact h.path

theorem not_mem_decimal {n : ℕ} {c : UInt8} (h : ¬ isDigit c) : c ∉ decimal n := fun hc => h (isDigit_of_mem_decimal hc)

theorem Sendable.fields (h : Sendable call host) : ∀ f ∈ call.fields host, Writable f := by
  intro f hf
  unfold Call.fields at hf
  rcases List.mem_append.1 hf with hf | hf
  · rcases List.mem_cons.1 hf with rfl | hf
    · exact ⟨(by decide : 58 ∉ text "Host" ∧ 10 ∉ text "Host"), h.host⟩
    · exact (h.header f hf).1
  · split at hf
    · obtain rfl := List.mem_singleton.1 hf
      have name : 58 ∉ text "Content-Length" ∧ 10 ∉ text "Content-Length" := by decide
      exact ⟨name, not_mem_decimal (by decide)⟩
    · cases hf

theorem Sendable.line (h : Sendable call host) : 10 ∉ call.line := by
  have version : (10 : UInt8) ∉ 32 :: (text "HTTP" ++ 47 :: text "1.1") := by decide
  intro hm
  unfold Call.line at hm
  rcases List.mem_append.1 hm with hm | hm
  · exact h.request_type.2 hm
  · rcases List.mem_cons.1 hm with hm | hm
    · cases hm
    · rcases List.mem_append.1 hm with hm | hm
      · exact h.corrected_path.2 hm
      · exact version hm

theorem write_buffer_eq (call : Call) (host : Bytes) :
    call.write_buffer host = call.line ++ crlf ++ ((call.fields host).flatMap writeField ++ crlf) := by
  have version : text " HTTP/1.1" = 32 :: (text "HTTP" ++ 47 :: text "1.1") := by decide
  have blank : text " " = [32] := by decide
  unfold Call.write_buffer Call.line Call.fields
  rw [version, blank]
  split
  · simp
  · simp

theorem parse_request_written (h : Sendable call host) (rest : Bytes) :
    parse_request (call.line ++ crlf ++ ((call.fields host).flatMap writeField ++ crlf ++ rest)) =
      .ok ({ call.received host with content := rest }, ⟨rest, false⟩) := by
  have space : find (call.line ++ [13]) 32 0 = some call.request_type.length := by
    rw [Call.line, List.append_assoc, List.cons_append]
    exact find_first h.request_type.1 _
  have space' : find (call.line ++ [13]) 32 (call.request_type.length + 1) =
      some (call.request_type.length + 1 + call.corrected_path.length) := by
    have e : call.line ++ [13] = (call.request_type ++ [32]) ++
        (call.corrected_path ++ 32 :: (text "HTTP" ++ 47 :: text "1.1" ++ [13])) := by simp [Call.line]
    have found := find_append (call.request_type ++ [32]) h.corrected_path.1 (text "HTTP" ++ 47 :: text "1.1" ++ [13])
    rw [← e, List.length_append, List.length_singleton] at found
    exact found
  have slash : find (call.line ++ [13]) 47 (call.request_type.length + 1 + call.corrected_path.length + 1) =
      some (call.request_type.length + 1 + call.corrected_path.length + 1 + 4) := by
    have e : call.line ++ [13] = (call.request_type ++ [32] ++ call.corrected_path ++ [32]) ++
        (text "HTTP" ++ 47 :: (text "1.1" ++ [13])) := by simp [Call.line]
    have found := find_append (call.request_type ++ [32] ++ call.corrected_path ++ [32])
      (show 47 ∉ text "HTTP" by decide) (text "1.1" ++ [13])
    have len : (call.request_type ++ [32] ++ call.corrected_path ++ [32]).length =
        call.request_type.length + 1 + call.corrected_path.length + 1 := by simp; omega
    rw [← e, len] at found
    exact found
  have method : substr (call.line ++ [13]) 0 call.request_type.length = call.request_type := by
    rw [Call.line, List.append_assoc]
    exact substr_append [] call.request_type _ rfl rfl
  have path : substr (call.line ++ [13]) (call.request_type.length + 1)
      (((call.request_type.length + 1 + call.corrected_path.length : ℕ) : Int) - call.request_type.length - 1) =
        call.corrected_path := by
    have e : call.line ++ [13] = (call.request_type ++ [32]) ++
        (call.corrected_path ++ (32 :: (text "HTTP" ++ 47 :: text "1.1") ++ [13])) := by simp [Call.line]
    rw [e]
    exact substr_append (call.request_type ++ [32]) call.corrected_path _ (by simp) (by push_cast; omega)
  have http : substr (call.line ++ [13]) (call.request_type.length + 1 + call.corrected_path.length + 1)
      (((call.request_type.length + 1 + call.corrected_path.length + 1 + 4 : ℕ) : Int) -
        (call.request_type.length + 1 + call.corrected_path.length : ℕ) - 1) = text "HTTP" := by
    have e : call.line ++ [13] = (call.request_type ++ [32] ++ call.corrected_path ++ [32]) ++
        (text "HTTP" ++ (47 :: text "1.1" ++ [13])) := by simp [Call.line]
    rw [e]
    exact substr_append (call.request_type ++ [32] ++ call.corrected_path ++ [32]) (text "HTTP") _ (by simp; omega)
      (by rw [(by decide : (text "HTTP").length = 4)]; push_cast; omega)
  have version : substr (call.line ++ [13]) (call.request_type.length + 1 + call.corrected_path.length + 1 + 4 + 1)
      (((call.line ++ [13]).length : Int) -
        (call.request_type.length + 1 + call.corrected_path.length + 1 + 4 : ℕ) - 2) = text "1.1" := by
    have e : call.line ++ [13] = (call.request_type ++ [32] ++ call.corrected_path ++ [32] ++ text "HTTP" ++ [47]) ++
        (text "1.1" ++ [13]) := by simp [Call.line]
    have four : (text "HTTP").length = 4 := by decide
    rw [e]
    refine substr_append (call.request_type ++ [32] ++ call.corrected_path ++ [32] ++ text "HTTP" ++ [47]) (text "1.1") [13] ?_ ?_
    · simp [four]
      omega
    · simp [four]
      omega
  have fields := readFields_written h.fields rest (call.line ++ [13]) []
  unfold parse_request
  rw [getline_crlf h.line]
  dsimp only at fields ⊢
  rw [space]
  dsimp only
  rw [space']
  dsimp only
  rw [slash]
  dsimp only
  rw [if_neg (by rw [http]; exact not_not_intro rfl), fields]
  dsimp only
  rw [method, path, version]
  rfl

/-- The length of the content is found if there is a content. -/
theorem Sendable.find (h : Sendable call host) :
    (call.fields host).find (text "Content-Length") =
      if call.content.length > 0 then some (decimal call.content.length) else none := by
  have given : List.find? (fun f => iequals f.1 (text "Content-Length")) ((text "Host", host) :: call.header) = none := by
    rw [List.find?_eq_none]
    intro f hf
    rcases List.mem_cons.1 hf with rfl | hf
    · exact (by decide : ¬ iequals (text "Host") (text "Content-Length") = true)
    · rw [(h.header f hf).2]
      exact Bool.false_ne_true
  have own : iequals (text "Content-Length") (text "Content-Length") = true := by decide
  unfold Header.find Call.fields
  rw [List.find?_append, given]
  split
  · simp [own]
  · simp

/-- However what the client has sent comes, the server reads the request of the call, with the whole of its content. -/
theorem read_request_and_content_sent (call : Call) (host : Bytes) (h : Sendable call host) (pieces : List Bytes)
    (sent : pieces.flatten = call.sent host) : read_request_and_content pieces = .ok (call.received host) := by
  have whole : [] ++ pieces.flatten = call.write_buffer host ++ call.content := sent
  have ends : endOf (crlf ++ crlf) (call.write_buffer host ++ call.content) = some (call.write_buffer host).length := by
    have e := endOf_header h.line h.fields call.content
    rw [← write_buffer_eq] at e
    rw [← e, write_buffer_eq]
    simp only [List.append_assoc]
  -- What has been received is the header and the beginning of the content.
  obtain ⟨got, rest, found, back⟩ := readUntil_front [] pieces whole ends
  have parsed : parse_request (call.write_buffer host ++ got) = .ok ({ call.received host with content := got }, ⟨got, false⟩) := by
    rw [← parse_request_written h got, write_buffer_eq]
    simp only [List.append_assoc]
  have additional : (call.write_buffer host ++ got).length - (call.write_buffer host).length = got.length := by simp
  have lengths := congrArg List.length back
  rw [List.length_append] at lengths
  unfold read_request_and_content
  rw [found]
  dsimp only
  rw [parsed, additional]
  dsimp only [Call.received]
  rw [h.find]
  by_cases some : call.content.length > 0
  · rw [if_pos some]
    dsimp only
    rw [stoull_decimal h.content]
    dsimp only
    split
    · obtain ⟨left, e, -⟩ := readExactly_spec got rest (show call.content.length - got.length ≤ rest.flatten.length by omega)
      rw [e, List.take_of_length_le (by omega), back]
    · have nothing : rest.flatten = [] := List.length_eq_zero_iff.1 (by omega)
      rw [nothing, List.append_nil] at back
      rw [back]
  · rw [if_neg some]
    have nothing : got = call.content := by
      rw [List.length_eq_zero_iff.1 (show call.content.length = 0 by omega)]
      exact List.length_eq_zero_iff.1 (by omega)
    rw [nothing]

end Zylib.SimpleWeb
