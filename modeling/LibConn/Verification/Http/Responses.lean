import LibConn.Verification.Http.Messages

/-! # A response is read back

`HttpResponse::dump` writes the names and values as they are. What a peer reads is what the
handler has put into the response exactly where they are names and values of HTTP. -/

namespace LibConn.Http

open LibConn.Lines

/-- The first line of `HTTP_HEADER`. -/
def statusLine : Bytes :=
  ascii "HTTP/1.1 200 OK"

/-- The fields that `dump` writes. -/
def HttpResponse.written (resp : HttpResponse) : List (Bytes × Bytes) :=
  resp.headers.entries ++ [(contentLength, formatInt resp.body.length)]

theorem dump_eq (resp : HttpResponse) :
    resp.dump httpHeader = spell (statusLine :: resp.written.map fieldLine) resp.body := by
  have hcrlf : ascii "\r\n" = [13, 10] := rfl
  have hheader : httpHeader = statusLine ++ [13, 10] := rfl
  have hlength : ascii "Content-Length: " = contentLength ++ ascii ": " := rfl
  simp only [HttpResponse.dump, HttpResponse.written, spell, fieldLine, hcrlf, hheader, hlength,
    List.map_append, List.map_cons, List.map_nil, List.flatMap_cons, List.flatMap_append,
    List.flatMap_map, List.flatMap_nil, List.append_assoc, List.cons_append, List.nil_append]

/-- What is written is read back exactly where every name and value of the handler can be
spelled, and a Content-Length among them says the size of the body. -/
theorem readMessage_dump_iff (resp : HttpResponse) (hbody : resp.body.length < 2 ^ 31) :
    readMessage (resp.dump httpHeader) =
        some (⟨statusLine,
          resp.headers.entries ++ [(contentLength, ascii (toString resp.body.length))],
          resp.body⟩, []) ↔
      ∀ field ∈ resp.headers.entries, Spellable field ∧
        (isContentLength field = true → decimal field.2 = some resp.body.length) := by
  have hwritten : resp.written =
      resp.headers.entries ++ [(contentLength, ascii (toString resp.body.length))] := by
    rw [HttpResponse.written, formatInt_of_lt hbody]
    rfl
  rw [dump_eq, ← hwritten]
  constructor
  · intro h field hfield
    obtain ⟨hspellable, hframing⟩ := readMessage_some h
    have hmem : field ∈ resp.written := List.mem_append_left _ hfield
    exact ⟨hspellable field hmem, (framing_eq_some_iff.mp hframing).2 field hmem⟩
  · intro h
    have hsize : decimal (formatInt resp.body.length) = some resp.body.length :=
      (decimal_formatInt_iff _).mpr hbody
    have hall : ∀ field ∈ resp.written, Spellable field ∧
        (isContentLength field = true → decimal field.2 = some resp.body.length) := by
      intro field hfield
      rcases List.mem_append.mp hfield with hfield | hfield
      · exact h field hfield
      · obtain rfl := List.mem_singleton.mp hfield
        refine ⟨spellable_contentLength _, fun _ => ?_⟩
        dsimp only
        exact hsize
    have hmem : (contentLength, formatInt resp.body.length) ∈ resp.written :=
      List.mem_append_right _ (List.mem_singleton_self _)
    have hstatus : Unbroken 13 10 statusLine ∧ statusLine ≠ [] := by decide
    exact readMessage_spell hstatus (fun field hfield => (hall field hfield).1)
      (framing_eq_some_iff.mpr ⟨⟨_, hmem, rfl⟩, fun field hfield => (hall field hfield).2⟩)

/-- A response with one header, read back. -/
theorem readMessage_dump_plain :
    readMessage (HttpResponse.dump ⟨.set .empty [88] [49], [104, 105], 200⟩ httpHeader) =
      some (⟨statusLine, [([88], [49]), (contentLength, ascii (toString 2))], [104, 105]⟩, []) := by
  refine (readMessage_dump_iff ⟨.set .empty [88] [49], [104, 105], 200⟩ (by decide)).mpr ?_
  intro field hfield
  obtain rfl : field = ([88], [49]) := List.mem_singleton.mp hfield
  exact ⟨⟨by decide, by decide, by decide, ⟨by decide +kernel, by decide +kernel⟩⟩, by decide⟩

/-- A line end in a value makes two fields of one. -/
theorem not_readMessage_dump_split :
    readMessage (HttpResponse.dump
        ⟨.set .empty [88] (ascii "1\r\nY: 2"), [104, 105], 200⟩ httpHeader) ≠
      some (⟨statusLine,
        [([88], ascii "1\r\nY: 2"), (contentLength, ascii (toString 2))], [104, 105]⟩, []) := by
  intro h
  have hvalue := ((readMessage_some h).1 _ List.mem_cons_self).value
  revert hvalue
  decide

end LibConn.Http
