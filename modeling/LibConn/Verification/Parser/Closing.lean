import LibConn.Verification.Parser.RoundTrips

/-! # Closing connections

Behind a message whose connection does not last, only the ends of lines are taken. -/

namespace LibConn.Parser

open LibConn.Http

section Closing

variable {parser : HttpParser} {n : ℕ} {tail : Bytes}

def lineEnd (ch : UInt8) : Bool :=
  ch = CR || ch = LF

theorem single_dead (hdead : parser.state = .dead) (ch : UInt8) :
    single parser ch = if lineEnd ch then .next parser [] else .fail parser [] .closedConnection := by
  rw [single, oneByte, hdead, Option.getD_some, deadState]
  rfl

theorem dead_eats (hdead : parser.state = .dead) (hn : n + tail.length ≤ maxHeaderSize)
    (calls : List Call) :
    eats (parser.withNread n) calls tail =
      if tail.all lineEnd then .all (parser.withNread (n + tail.length)) calls else .failed := by
  have hheader : parsingHeader parser.state = true := by rw [hdead]; rfl
  induction tail generalizing n with
  | nil => rfl
  | cons ch tail ih =>
      rw [List.length_cons] at hn
      rw [eats, eat_withNread hheader (by omega), single_dead (by exact hdead), List.all_cons]
      cases hch : lineEnd ch with
      | true =>
          rw [if_pos rfl]
          dsimp only
          rw [byteCalls_outside ch _ (by rw [show (parser.withNread n).state = .dead from hdead]; rfl),
            List.append_nil, ih (by omega), Bool.true_and, List.length_cons, Nat.add_assoc,
            Nat.add_comm 1]
      | false => rfl

/-- A request on a connection that does not last is the last one: no error is reported exactly where
nothing but ends of lines follows it. -/
theorem request_closes (request : Request) (hstart : AtStart parser) (hsound : Sound parser)
    (hclosing : request.version.lasting = false)
    (hn : parser.nread + request.head.length + 2 ≤ maxHeaderSize)
    (htail : request.entity.content.carry + tail.length ≤ maxHeaderSize)
    (hlength : (request.text ++ tail).length < 2 ^ 31) :
    (∃ executed, execute parser (request.text ++ tail) = some executed ∧
      executed.parser.http_errno = .ok) ↔ ∀ b ∈ tail, b = CR ∨ b = LF := by
  obtain ⟨last, ⟨calls, heats, -⟩, hnread, -, hstate⟩ := request_leads request hstart hn
  rw [hclosing, if_neg Bool.false_ne_true] at hstate
  have hself : parser.withNread parser.nread = parser := rfl
  have hself' : last.withNread request.entity.content.carry = last := by rw [← hnread]; rfl
  have hends := dead_eats hstate htail []
  rw [hself] at heats
  rw [hself'] at hends
  have hne : request.text ++ tail ≠ [] := by simp [Request.text]
  have hexecutes := execute_eats hsound hne hlength
  rw [eats_behind calls heats, hends] at hexecutes
  have hall : (∀ b ∈ tail, b = CR ∨ b = LF) ↔ tail.all lineEnd = true := by
    simp [lineEnd]
  rw [hall]
  constructor
  · rintro ⟨executed, hexecute, herrno⟩
    by_contra hother
    rw [if_neg hother, hexecute] at hexecutes
    obtain ⟨executed', hsame, -, hfailed⟩ := hexecutes
    obtain rfl := Option.some.inj hsame
    exact hfailed herrno
  · intro hends
    rw [if_pos hends] at hexecutes
    obtain ⟨hsound', calls', hexecute, -⟩ := hexecutes
    exact ⟨_, hexecute, hsound'.http_errno⟩

theorem isNum_zero : isNum '0'.toUInt8 = true :=
  rfl

/-- The sample for a peer that speaks HTTP/1.0. -/
def closingRequest : Request :=
  { sampleRequest with
    version := { Version.oneOne with minor := '0'.toUInt8, isNum_minor := isNum_zero } }

theorem request_closes_oneZero :
    (∃ executed, execute (.init .both) (closingRequest.text ++ ascii "GET") = some executed ∧
      executed.parser.http_errno = .ok) ↔ ∀ b ∈ ascii "GET", b = CR ∨ b = LF :=
  request_closes closingRequest (.inr rfl) (sound_init .both) (by decide) (by decide) (by decide)
    (by decide)

end Closing

end LibConn.Parser
