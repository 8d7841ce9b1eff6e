import LibConn.Verification.Http.Telling
import LibConn.Verification.Parser.Replies
import LibConn.Verification.Parser.Streams

/-! # What the vendored parser tells

The response that the callbacks tell of is that of the bytes: how the segments cut them makes no
difference, and a response that is written with some headers is told with them. -/

namespace LibConn.Parser

open LibConn.Http LibConn.Merging

/-- Two pieces tell what the string tells that they are pieces of. -/
theorem told_join {a b ab : Call} (h : joinCalls a b = some ab) (t : Told) :
    (t.add a.callback).add b.callback = t.add ab.callback := by
  obtain ⟨status_code, headers, inName⟩ := t
  cases a <;> cases b <;> simp only [joinCalls] at h
  case status.status s code s' code' =>
    split_ifs at h with hcode
    obtain rfl := Option.some.inj h
    rw [Call.callback, Call.callback, Call.callback, hcode]
    rfl
  case headerField.headerField name piece =>
    obtain rfl := Option.some.inj h
    cases inName <;> cases headers <;> simp [Call.callback, Told.add]
  case headerValue.headerValue value piece =>
    obtain rfl := Option.some.inj h
    cases headers <;> simp [Call.callback, Told.add]
  all_goals cases h <;> rfl

theorem told_joined (calls : List Call) :
    told ((joined calls).map Call.callback) = told (calls.map Call.callback) := by
  rw [told, told, List.foldl_map, List.foldl_map]
  refine @foldl_merge _ _ _ (fun t call => t.add call.callback) (fun h t => ?_) calls Told.nothing
  exact told_join h t

theorem told_of_joined {calls calls' : List Call} (h : joined calls = joined calls') :
    told (calls.map Call.callback) = told (calls'.map Call.callback) := by
  rw [← told_joined, h, told_joined]

/-- Bytes that are taken whole tell the same in whatever segments they arrive. -/
theorem told_segments (encodeKey : Bytes → Bytes) {executed : Executed} {segments : List Bytes}
    (hne : segments ≠ []) (hall : ∀ data ∈ segments, data ≠ [])
    (hlength : segments.flatten.length < 2 ^ 31)
    (hexecute : execute (.init .both) segments.flatten = some executed)
    (hok : executed.parser.http_errno = .ok) (htaken : executed.nparsed = segments.flatten.length) :
    told ((vendored encodeKey).reported (.init .both) segments) =
      told (executed.calls.map Call.callback) := by
  obtain ⟨fed, rest, calls, n, last, rfl, hfeeds, hwhole, -⟩ :=
    feeds_of_flatten (sound_init .both) hne hall hlength hexecute
  obtain ⟨rfl, rfl, hcalls, hrest⟩ := hwhole hok
  obtain rfl := hrest htaken
  rw [List.append_nil] at htaken ⊢
  rw [(outputs_of_feeds hfeeds htaken).1]
  exact told_of_joined hcalls

theorem told_fields (fields : List (Bytes × Bytes)) (status_code : Option ℤ)
    (earlier : List (Bytes × Bytes)) :
    ((fields.flatMap fieldCalls).map Call.callback).foldl Told.add
        ⟨status_code, earlier, false⟩ =
      ⟨status_code, fields.reverse ++ earlier, false⟩ := by
  induction fields generalizing earlier with
  | nil => rfl
  | cons field fields ih =>
      rw [List.flatMap_cons, List.map_append, List.foldl_append]
      refine (ih (field :: earlier)).trans ?_
      rw [List.reverse_cons, List.append_assoc, List.singleton_append]

/-- A response without a body is told with the headers that it was written with. -/
theorem told_message (reason : Bytes) (code : ℕ) (fields : List (Bytes × Bytes))
    (method : HttpMethod) :
    told (([Call.messageBegin, .status reason code] ++ fields.flatMap fieldCalls ++
        [Call.headersComplete, .messageComplete method]).map Call.callback) =
      ⟨some code, fields.reverse, false⟩ := by
  have hfields := told_fields fields (some code) []
  rw [List.append_nil] at hfields
  rw [told, List.map_append, List.map_append, List.foldl_append, List.foldl_append]
  refine (congrArg (List.foldl Told.add · _) hfields).trans ?_
  rfl

end LibConn.Parser
