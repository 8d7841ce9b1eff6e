import LibConn.Verification.Parser.Fields

/-! # Bodies

From the empty line behind the fields to the next message. The count starts anew there, and only
the lines around the chunks of a body are counted. -/

namespace LibConn.Parser

open LibConn.Http

/-- The parser that decides about the body, behind the empty line. -/
def HttpParser.headed (line : HttpParser) : HttpParser :=
  { line with state := .headersDone, upgrade := line.asksUpgrade }

/-- The parser behind a body with a length. -/
def behindIdentity (parser : HttpParser) : HttpParser :=
  let parser := { parser with content_length := 0, state := .messageDone }
  parser.enter parser.newMessage

section Bodies

variable {parser line next last : HttpParser} {ch : UInt8} {text rest body : Bytes}
  {calls pending : List Call} {ops : List Op} {n : ℕ}

/-! ## The empty line -/

/-- The first byte of the empty line. -/
theorem Ready.ends (h : Ready parser pending line) :
    Advances parser [CR] pending (line.enter .headersAlmostDone) := by
  have hcr : Passes line CR (line.enter .headersAlmostDone) [] := by
    refine ⟨by rw [h.state]; rfl, fun n => ?_⟩
    rw [single, oneByte, show (line.withNread n).state = .headerFieldStart from h.state]
    rfl
  have hline : Advances line [CR] [] (line.enter .headersAlmostDone) :=
    .step hcr (byteCalls_outside CR _ (by rw [h.state]; rfl)) (.nil _)
  have hends := h.advances (by decide) hline
  rw [List.append_nil] at hends
  exact hends

/-- The second byte, where nothing stands against the message. -/
theorem eat_headersAlmostDone (htrailing : line.flags.trailing = false)
    (hclash : line.clashes = false) (hn : n + 1 ≤ maxHeaderSize) :
    eat ((line.enter .headersAlmostDone).withNread n) LF =
      (headersDone line.headed LF).after [.notify .headersComplete] := by
  have hturn : single ((line.enter .headersAlmostDone).withNread (n + 1)) LF =
      headersAlmostDone ((line.enter .headersAlmostDone).withNread (n + 1)) LF := rfl
  rw [eat_withNread rfl hn, hturn, headersAlmostDone, if_neg (by decide),
    if_neg (by rw [Bool.not_eq_true]; exact htrailing),
    if_neg (by rw [Bool.not_eq_true]; exact hclash)]
  rfl

theorem head_leads (hready : Ready parser pending line) (htrailing : line.flags.trailing = false)
    (hclash : line.clashes = false) (hturn : headersDone line.headed LF = .next last ops)
    (hn : n + 2 ≤ maxHeaderSize) :
    Leads (parser.withNread n) [CR, LF]
      (pending ++ .headersComplete :: byteCalls .headersAlmostDone LF last ops) last := by
  have heat := eat_headersAlmostDone htrailing hclash (n := n + 1) hn
  rw [hturn] at heat
  have hlf := leads_byte heat
  rw [List.singleton_append] at hlf
  have hcalls : byteCalls .headersAlmostDone LF last (.notify .headersComplete :: ops) =
      .headersComplete :: byteCalls .headersAlmostDone LF last ops :=
    byteCalls_notify LF last ops rfl .headersComplete
  rw [← hcalls]
  exact (hready.ends n (Nat.le_of_succ_le hn)).append hlf

theorem head_leaves (hready : Ready parser pending line) (htrailing : line.flags.trailing = false)
    (hclash : line.clashes = false) (hturn : headersDone line.headed LF = .leave last ops)
    (hn : n + 2 ≤ maxHeaderSize) :
    Leaves (parser.withNread n) [CR, LF]
      (pending ++ .headersComplete :: byteCalls .headersAlmostDone LF last ops) last := by
  have heat := eat_headersAlmostDone htrailing hclash (n := n + 1) hn
  rw [hturn] at heat
  have hlf := leaves_byte heat
  rw [List.singleton_append] at hlf
  have hcalls : byteCalls .headersAlmostDone LF last (.notify .headersComplete :: ops) =
      .headersComplete :: byteCalls .headersAlmostDone LF last ops :=
    byteCalls_notify LF last ops rfl .headersComplete
  rw [← hcalls]
  exact (hready.ends n (Nat.le_of_succ_le hn)).leaves hlf

theorem trailers_lead (hready : Ready parser pending line) (htrailing : line.flags.trailing = true)
    (hupgrade : line.upgrade = false) (hn : n + 2 ≤ maxHeaderSize) :
    Leads (parser.withNread n) [CR, LF]
      (pending ++ [.chunkComplete, .messageComplete line.method])
      ((line.enter line.newMessage).withNread (n + 2)) := by
  have heat : eat ((line.enter .headersAlmostDone).withNread (n + 1)) LF =
      .next ((line.enter line.newMessage).withNread (n + 2))
        [.notify .chunkComplete, .notify .messageComplete] := by
    have hturn : single ((line.enter .headersAlmostDone).withNread (n + 1 + 1)) LF =
        headersAlmostDone ((line.enter .headersAlmostDone).withNread (n + 1 + 1)) LF := rfl
    rw [eat_withNread rfl hn, hturn, headersAlmostDone, if_neg (by decide),
      if_pos (by exact htrailing), messageDone, if_neg (by rw [Bool.not_eq_true]; exact hupgrade)]
    rfl
  have hlf := leads_byte heat
  have hcalls : byteCalls .headersAlmostDone LF ((line.enter line.newMessage).withNread (n + 2))
      [.notify .chunkComplete, .notify .messageComplete] =
        [.chunkComplete, .messageComplete line.method] := by
    rw [byteCalls_notify LF _ _ rfl, byteCalls_notify LF _ _ rfl, byteCalls_outside LF _ rfl]
    rfl
  have hstate : ((line.enter .headersAlmostDone).withNread (n + 1)).state = .headersAlmostDone :=
    rfl
  rw [hstate, hcalls] at hlf
  exact (hready.ends n (Nat.le_of_succ_le hn)).append hlf

/-! ## Bodies with a length -/

theorem joins_body : Joins .body := fun _ _ => rfl

theorem identity_leads (hstate : parser.state = .bodyIdentity) (hbody : body ≠ [])
    (hlength : parser.content_length = body.length) (hlt : body.length < ullongMax)
    (hupgrade : parser.upgrade = false) :
    Leads parser body [.body body, .messageComplete parser.method]
      (behindIdentity parser) := by
  induction body generalizing parser with
  | nil => exact absurd rfl hbody
  | cons ch rest ih =>
      rw [List.length_cons] at hlength hlt
      have hlengths : ¬ (decide (parser.content_length = 0) ||
          decide (parser.content_length = ullongMax)) = true := by
        simp only [hlength, Bool.or_eq_true, decide_eq_true_eq]
        omega
      have hturn : eat parser ch = loopByte parser ch := by
        rw [eat, if_neg (by rw [hstate]; decide), single, oneByte, hstate, Option.getD_none]
      have hbyte : loopByte parser ch =
          if rest.length = 0 then
            (messageDone ({ parser with content_length := rest.length }.enter .messageDone)).after
              [.mark .body, .bodyHere]
          else .next { parser with content_length := rest.length } [.mark .body] := by
        rw [loopByte, hstate]
        dsimp only
        rw [if_neg hlengths, hlength, Nat.add_sub_cancel]
      have hmark : markOf parser.state = none := by rw [hstate]; rfl
      cases rest with
      | nil =>
          have heat : eat parser ch =
              .next (behindIdentity parser) [.mark .body, .bodyHere, .notify .messageComplete] := by
            rw [hturn, hbyte, if_pos List.length_nil, messageDone,
              if_neg (by simp [HttpParser.enter, hupgrade])]
            rfl
          have hlast := leads_byte heat
          rw [byteCalls_bodyHere ch _ _ hmark, byteCalls_notify ch _ _ hmark,
            byteCalls_outside ch _ hmark] at hlast
          exact hlast
      | cons ch' rest =>
          have heat : eat parser ch =
              .next { parser with content_length := (ch' :: rest).length } [.mark .body] := by
            rw [hturn, hbyte, if_neg (by simp)]
          have hfirst := leads_byte heat
          rw [byteCalls_mark ch _ hmark] at hfirst
          have hrest := @ih { parser with content_length := (ch' :: rest).length } hstate
            (List.cons_ne_nil _ _) rfl (by omega) hupgrade
          exact (hfirst.append hrest).congr
            (Merging.merge_joined joinCalls_associative (joins_body [ch] (ch' :: rest)) [] _)

end Bodies

end LibConn.Parser
