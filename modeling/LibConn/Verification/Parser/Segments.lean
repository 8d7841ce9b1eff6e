import LibConn.Shared.Merging
import LibConn.Verification.Parser.Marks

/-! # Segments

A stream reaches the parser in segments, and a string that goes over their border reaches the
callbacks in pieces. Up to that, a run over a segment is the run over each of its bytes alone:
how the stream is cut makes no difference. -/

namespace LibConn.Parser

open LibConn.Http LibConn.Merging

/-! ## Pieces -/

/-- Neighbouring pieces of one string. -/
def joinCalls : Call → Call → Option Call
  | .url a, .url b => some (.url (a ++ b))
  | .status a code, .status b code' => if code = code' then some (.status (a ++ b) code) else none
  | .headerField a, .headerField b => some (.headerField (a ++ b))
  | .headerValue a, .headerValue b => some (.headerValue (a ++ b))
  | .body a, .body b => some (.body (a ++ b))
  | _, _ => none

theorem joinCalls_dataCall (parser : HttpParser) (f : Field) (a b : Bytes) :
    joinCalls (dataCall parser a f) (dataCall parser b f) = some (dataCall parser (a ++ b) f) := by
  cases f with
  | status => exact if_pos rfl
  | headerField | headerValue | url | body => rfl

theorem exists_dataCall {a b ab : Call} (h : joinCalls a b = some ab) :
    ∃ parser f s t, a = dataCall parser s f ∧ b = dataCall parser t f ∧
      ab = dataCall parser (s ++ t) f := by
  cases a <;> cases b <;> simp only [joinCalls] at h
  case status.status s code t code' =>
    split_ifs at h with hcode
    obtain rfl := Option.some.inj h
    exact ⟨{ HttpParser.init .both with status_code := code }, .status, s, t, rfl,
      by rw [hcode]; rfl, rfl⟩
  case url.url s t => exact ⟨.init .both, .url, s, t, rfl, rfl, (Option.some.inj h).symm⟩
  case headerField.headerField s t =>
    exact ⟨.init .both, .headerField, s, t, rfl, rfl, (Option.some.inj h).symm⟩
  case headerValue.headerValue s t =>
    exact ⟨.init .both, .headerValue, s, t, rfl, rfl, (Option.some.inj h).symm⟩
  case body.body s t => exact ⟨.init .both, .body, s, t, rfl, rfl, (Option.some.inj h).symm⟩
  all_goals cases h

theorem dataCall_congr {parser parser' : HttpParser} {f f' : Field} {s s' : Bytes}
    (h : dataCall parser s f = dataCall parser' s' f') :
    s = s' ∧ ∀ t, dataCall parser t f = dataCall parser' t f' := by
  cases f <;> cases f' <;> simp only [dataCall, Call.status.injEq] at h
  case status.status => exact ⟨h.1, fun t => by simp only [dataCall, h.2]⟩
  all_goals cases h
  all_goals exact ⟨rfl, fun _ => rfl⟩

theorem joinCalls_associative : Associative joinCalls where
  joined := by
    intro a b c ab bc hab hbc
    obtain ⟨parser, f, s, t, rfl, rfl, rfl⟩ := exists_dataCall hab
    obtain ⟨parser', f', t', u, hb, rfl, rfl⟩ := exists_dataCall hbc
    obtain ⟨rfl, hsame⟩ := dataCall_congr hb
    refine ⟨dataCall parser (s ++ (t ++ u)) f, ?_, ?_⟩
    · rw [← hsame]
      exact joinCalls_dataCall parser f s (t ++ u)
    · rw [← hsame, ← List.append_assoc]
      exact joinCalls_dataCall parser f (s ++ t) u
  apart := by
    intro a b c ab hab hbc
    obtain ⟨parser, f, s, t, rfl, rfl, rfl⟩ := exists_dataCall hab
    cases hjoin : joinCalls (dataCall parser (s ++ t) f) c with
    | none => rfl
    | some abc =>
        obtain ⟨parser', f', s', u, hab', rfl, -⟩ := exists_dataCall hjoin
        rw [← (dataCall_congr hab').2, joinCalls_dataCall] at hbc
        cases hbc

/-- The calls with the pieces of each string put together. -/
def joined (calls : List Call) : List Call :=
  merge joinCalls calls

theorem joined_append {a a' b b' : List Call} (ha : joined a = joined a')
    (hb : joined b = joined b') : joined (a ++ b) = joined (a' ++ b') :=
  merge_congr joinCalls_associative ha hb

theorem joined_pieces (calls : List Call) (parser : HttpParser) (f : Field) (s t : Bytes) :
    joined (calls ++ [dataCall parser s f] ++ [dataCall parser t f]) =
      joined (calls ++ [dataCall parser (s ++ t) f]) := by
  rw [List.append_assoc]
  exact merge_joined joinCalls_associative (joinCalls_dataCall parser f s t) calls []

/-! ## Bytes alone -/

/-- Only `f` is marked, if anything is. -/
def markedAt (f : Option Field) (mark : ℕ) : Field → Option ℕ :=
  fun g => if f = some g then some mark else none

theorem initialMarks_eq (s : State) : initialMarks s = markedAt (markOf s) 0 := by
  funext f
  cases s <;> cases f <;> rfl

/-- The callbacks behind the loop. -/
def Run.flush (data : Bytes) (r : Run) : Run :=
  Field.all.foldl (Run.callbackData data data.length) r

/-- The calls for a byte that is a segment of its own. -/
def byteCalls (s : State) (ch : UInt8) (parser : HttpParser) (ops : List Op) : List Call :=
  (((⟨parser, initialMarks s, []⟩ : Run).ops [ch] 0 ops).flush [ch]).calls

/-- What the bytes of a segment come to when each is a segment of its own. -/
inductive Eaten where
  | all (parser : HttpParser) (calls : List Call)
  /-- with what is left behind an upgrade -/
  | left (parser : HttpParser) (calls : List Call) (rest : Bytes)
  | failed

def eats : HttpParser → List Call → Bytes → Eaten
  | parser, calls, [] => .all parser calls
  | parser, calls, ch :: rest =>
      match eat parser ch with
      | .next parser' ops => eats parser' (calls ++ byteCalls parser.state ch parser' ops) rest
      | .leave parser' ops => .left parser' (calls ++ byteCalls parser.state ch parser' ops) rest
      | .fail _ _ _ | .abort => .failed

theorem eats_append {parser parser' : HttpParser} {calls calls' : List Call} {a : Bytes}
    (h : eats parser calls a = .all parser' calls') (b : Bytes) :
    eats parser calls (a ++ b) = eats parser' calls' b := by
  induction a generalizing parser calls with
  | nil =>
      cases h
      rfl
  | cons ch a ih =>
      rw [List.cons_append, eats]
      rw [eats] at h
      cases heat : eat parser ch with
      | next next ops =>
          rw [heat] at h
          exact ih h
      | leave next ops | fail next ops e | abort =>
          rw [heat] at h
          cases h

theorem eats_append_left {parser parser' : HttpParser} {calls calls' : List Call} {a rest : Bytes}
    (h : eats parser calls a = .left parser' calls' rest) (b : Bytes) :
    eats parser calls (a ++ b) = .left parser' calls' (rest ++ b) := by
  induction a generalizing parser calls with
  | nil => cases h
  | cons ch a ih =>
      rw [List.cons_append, eats]
      rw [eats] at h
      cases heat : eat parser ch with
      | next next ops =>
          rw [heat] at h
          exact ih h
      | leave next ops =>
          rw [heat] at h
          cases h
          rfl
      | fail next ops e | abort =>
          rw [heat] at h
          cases h

theorem eats_append_failed {parser : HttpParser} {calls : List Call} {a : Bytes}
    (h : eats parser calls a = .failed) (b : Bytes) : eats parser calls (a ++ b) = .failed := by
  induction a generalizing parser calls with
  | nil => cases h
  | cons ch a ih =>
      rw [List.cons_append, eats]
      rw [eats] at h
      cases heat : eat parser ch with
      | next next ops =>
          rw [heat] at h
          exact ih h
      | leave next ops =>
          rw [heat] at h
          cases h
      | fail next ops e | abort => rfl

/-- What was called before is kept in front. -/
def Eaten.behind (before : List Call) : Eaten → Eaten
  | .all parser calls => .all parser (before ++ calls)
  | .left parser calls rest => .left parser (before ++ calls) rest
  | .failed => .failed

theorem eats_calls (parser : HttpParser) (before calls : List Call) (data : Bytes) :
    eats parser (before ++ calls) data = (eats parser calls data).behind before := by
  induction data generalizing parser calls with
  | nil => rfl
  | cons ch data ih =>
      rw [eats, eats]
      cases heat : eat parser ch with
      | next next ops =>
          dsimp only
          rw [List.append_assoc]
          exact ih next _
      | leave next ops =>
          dsimp only
          rw [List.append_assoc]
          rfl
      | fail | abort => rfl

/-! ## The byte in its segment -/

theorem between_self (data : Bytes) (p : ℕ) : between data p p = [] := by
  rw [between, Nat.sub_self, List.take_zero]

theorem between_append {data : Bytes} {m p q : ℕ} (hmp : m ≤ p) (hpq : p ≤ q) :
    between data m p ++ between data p q = between data m q := by
  rw [between, between, between, ← Nat.sub_add_sub_cancel hpq hmp, Nat.add_comm, List.take_add,
    List.drop_drop, Nat.add_sub_cancel' hmp]

section Bytes

variable {data : Bytes} {p : ℕ} {ch : UInt8} {r b : Run} {f : Field} {m : ℕ}

theorem between_succ (h : data[p]? = some ch) : between data p (p + 1) = [ch] := by
  obtain ⟨hp, rfl⟩ := List.getElem?_eq_some_iff.mp h
  rw [between, Nat.add_sub_cancel_left, List.drop_eq_getElem_cons hp]
  rfl

theorem update_marked (m p : ℕ) (f : Field) :
    Function.update (markedAt none m) f (some p) = markedAt (some f) p := by
  funext g
  by_cases h : g = f
  · subst h
    rw [Function.update_self]
    exact (if_pos rfl).symm
  · rw [Function.update_of_ne h]
    exact (if_neg fun h' => h (Option.some.inj h').symm).symm

theorem update_unmarked (m : ℕ) (f : Field) :
    Function.update (markedAt (some f) m) f none = markedAt none 0 := by
  funext g
  by_cases h : g = f
  · subst h
    rw [Function.update_self]
    rfl
  · rw [Function.update_of_ne h]
    exact if_neg fun h' => h (Option.some.inj h').symm

theorem callbackData_unmarked (hr : r.marks = markedAt none 0) (q : ℕ) (f : Field) :
    r.callbackData data q f = r := by
  rw [Run.callbackData, hr]
  rfl

theorem callbackData_marked (hr : r.marks = markedAt (some f) m) (q : ℕ) :
    r.callbackData data q f =
      { r with
        calls := r.calls ++ [dataCall r.parser (between data m q) f]
        marks := markedAt none 0 } := by
  have hmark : r.marks f = some m := by
    rw [hr]
    exact if_pos rfl
  rw [Run.callbackData, hmark, hr]
  dsimp only
  rw [update_unmarked]

theorem op_mark_unmarked (hr : r.marks = markedAt none 0) (q : ℕ) (f : Field) :
    r.op data q (.mark f) = { r with marks := markedAt (some f) q } := by
  rw [Run.op, hr]
  dsimp only [markedAt]
  rw [if_neg (by simp), ← update_marked 0 q f]

/-- The run over a segment at `p`, after some of the macros for the byte there, and the run over
this byte alone, which follows the calls `before`. -/
inductive Alike (data : Bytes) (p : ℕ) (before : List Call) (r b : Run) : Marking → Prop where
  | clear {marking : Marking} (outside : ∀ f, marking ≠ .inside f)
      (hr : r.marks = markedAt none 0) (hb : b.marks = markedAt none 0)
      (calls : joined r.calls = joined (before ++ b.calls)) : Alike data p before r b marking
  | first {f : Field} (hr : r.marks = markedAt (some f) p) (hb : b.marks = markedAt (some f) 0)
      (calls : joined r.calls = joined (before ++ b.calls)) :
      Alike data p before r b (.inside f)
  | inside {f : Field} {m : ℕ} (le : m ≤ p) (hr : r.marks = markedAt (some f) m)
      (hb : b.marks = markedAt (some f) 0)
      (calls : joined (r.calls ++ [dataCall r.parser (between data m p) f]) =
        joined (before ++ b.calls)) : Alike data p before r b (.inside f)
  | pending {m : ℕ} (le : m ≤ p) (hr : r.marks = markedAt (some .body) m)
      (hb : b.marks = markedAt none 0)
      (calls : joined (r.calls ++ [dataCall r.parser (between data m p) .body]) =
        joined (before ++ b.calls)) : Alike data p before r b .body

theorem between_byte (hch : data[p]? = some ch) {k : ℕ} (hk : k ≤ 1) :
    between [ch] 0 k = between data p (p + k) := by
  rcases Nat.le_one_iff_eq_zero_or_eq_one.mp hk with rfl | rfl
  · rw [between_self, Nat.add_zero, between_self]
  · rw [between_succ hch]
    rfl

theorem Alike.callback {before : List Call} (h : Alike data p before r b (.inside f))
    (hparser : r.parser = b.parser) (hch : data[p]? = some ch) {k : ℕ} (hk : k ≤ 1) :
    Alike data p before (r.callbackData data (p + k) f) (b.callbackData [ch] k f) .clear := by
  have hbyte := between_byte hch hk
  cases h with
  | clear outside => exact absurd rfl (outside f)
  | first hr hb calls =>
      rw [callbackData_marked hr, callbackData_marked hb, hbyte, ← hparser]
      refine .clear nofun rfl rfl ?_
      rw [← List.append_assoc]
      exact joined_append calls rfl
  | @inside _ m le hr hb calls =>
      rw [callbackData_marked hr, callbackData_marked hb, hbyte, ← hparser]
      refine .clear nofun rfl rfl ?_
      rw [← List.append_assoc, ← between_append le (Nat.le_add_right p k), ← joined_pieces]
      exact joined_append calls rfl

theorem Alike.op {before : List Call} {k k' : Marking} {op : Op}
    (h : Alike data p before r b k) (hparser : r.parser = b.parser) (hch : data[p]? = some ch)
    (htrack : track k op = some k') :
    Alike data p before (r.op data p op) (b.op [ch] 0 op) k' := by
  cases k with
  | clear =>
      cases h with
      | clear outside hr hb calls =>
          cases op with
          | mark f =>
              cases htrack
              rw [op_mark_unmarked hr, op_mark_unmarked hb]
              exact .first rfl rfl calls
          | notify n =>
              cases htrack
              refine .clear nofun hr hb ?_
              rw [Run.op, Run.op, ← List.append_assoc, ← hparser]
              exact joined_append calls rfl
          | data g => cases htrack
          | bodyHere => cases htrack
  | inside f =>
      cases op with
      | data g =>
          rw [track] at htrack
          split_ifs at htrack with hsame
          subst hsame
          cases htrack
          exact h.callback hparser hch (Nat.zero_le 1)
      | bodyHere =>
          cases f with
          | body =>
              cases htrack
              exact h.callback hparser hch le_rfl
          | headerField | headerValue | url | status => cases htrack
      | mark g => cases f <;> cases htrack
      | notify n => cases f <;> cases htrack
  | body =>
      cases op with
      | mark g =>
          cases g with
          | body =>
              cases htrack
              cases h with
              | clear outside hr hb calls =>
                  rw [op_mark_unmarked hr, op_mark_unmarked hb]
                  exact .first rfl rfl calls
              | @pending m le hr hb calls =>
                  have hmark : r.marks .body = some m := by
                    rw [hr]
                    exact if_pos rfl
                  rw [op_mark_of_some data p hmark, op_mark_unmarked hb]
                  exact .inside le hr rfl calls
          | headerField | headerValue | url | status => cases htrack
      | data g =>
          cases g with
          | body =>
              cases htrack
              cases h with
              | clear outside hr hb calls =>
                  rw [Run.op, Run.op, callbackData_unmarked hr, callbackData_unmarked hb]
                  exact .clear nofun hr hb calls
              | pending le hr hb calls =>
                  rw [Run.op, Run.op, callbackData_marked hr, callbackData_unmarked hb]
                  exact .clear nofun rfl hb calls
          | headerField | headerValue | url | status => cases htrack
      | bodyHere => cases htrack
      | notify n => cases htrack

theorem Alike.ops {before : List Call} {k k' : Marking} {ops : List Op}
    (h : Alike data p before r b k) (hparser : r.parser = b.parser) (hch : data[p]? = some ch)
    (htrack : ops.foldlM track k = some k') :
    Alike data p before (r.ops data p ops) (b.ops [ch] 0 ops) k' := by
  induction ops generalizing r b k with
  | nil =>
      cases htrack
      exact h
  | cons op ops ih =>
      rw [List.foldlM_cons] at htrack
      obtain ⟨next, hop, hops⟩ := Option.bind_eq_some_iff.mp htrack
      exact ih (h.op hparser hch hop) (by rw [parser_op, parser_op, hparser]) hops

theorem foldl_unmarked (hr : r.marks = markedAt none 0) (q : ℕ) (fields : List Field) :
    fields.foldl (Run.callbackData data q) r = r := by
  induction fields with
  | nil => rfl
  | cons f fields ih => rw [List.foldl_cons, callbackData_unmarked hr, ih]

theorem flush_unmarked (hr : r.marks = markedAt none 0) : r.flush data = r :=
  foldl_unmarked hr _ _

theorem flush_marked (hr : r.marks = markedAt (some f) m) :
    r.flush data = r.callbackData data data.length f := by
  have hmem : f ∈ Field.all := by cases f <;> decide
  rw [Run.flush]
  generalize Field.all = fields at hmem
  induction fields with
  | nil => cases hmem
  | cons g fields ih =>
      rw [List.foldl_cons]
      by_cases hg : g = f
      · subst hg
        rw [callbackData_marked hr]
        exact foldl_unmarked rfl _ _
      · have hmark : r.marks g = none := by
          rw [hr]
          exact if_neg fun h => hg (Option.some.inj h).symm
        have hkept : r.callbackData data data.length g = r := by rw [Run.callbackData, hmark]
        rw [hkept]
        exact ih ((List.mem_cons.mp hmem).resolve_left fun h => hg h.symm)

/-- Between two bytes: the run over the segment, and the calls for the bytes alone. -/
inductive Along (data : Bytes) (p : ℕ) (r : Run) (calls : List Call) : Prop where
  | start (hp : p = 0) (hr : r.marks = initialMarks r.parser.state)
      (empty : r.calls = [] ∧ calls = [])
  | clear (outside : ∀ f, marking r.parser.state ≠ .inside f) (hr : r.marks = markedAt none 0)
      (same : joined r.calls = joined calls)
  | inside {f : Field} {m : ℕ}
      (within : marking r.parser.state = .inside f ∨
        (f = .body ∧ marking r.parser.state = .body))
      (le : m ≤ p) (hr : r.marks = markedAt (some f) m)
      (same : joined (r.calls ++ [dataCall r.parser (between data m p) f]) = joined calls)

theorem markOf_of_marking {s : State} (h : marking s = .inside f) : markOf s = some f := by
  rw [marking] at h
  split at h
  · next g hg =>
      cases h
      exact hg
  · split_ifs at h

theorem markOf_outside {s : State} (h : ∀ f, marking s ≠ .inside f) : markOf s = none := by
  cases hmark : markOf s with
  | none => rfl
  | some f => exact absurd (by rw [marking, hmark]) (h f)

theorem eat_status {parser next : HttpParser} {ops : List Op} (hstate : parser.state = .resStatus)
    (h : eat parser ch = .next next ops ∨ eat parser ch = .leave next ops) :
    next.status_code = parser.status_code := by
  rw [eat, hstate, if_pos (by decide)] at h
  split_ifs at h
  · rcases h with h | h <;> cases h
  · rw [single, oneByte, show (parser.count 1).state = .resStatus from hstate, resStatus] at h
    simp only [Option.getD_some] at h
    split_ifs at h <;> rcases h with h | h <;> cases h <;> rfl

theorem state_of_status {s : State} (h : marking s = .inside .status) : s = .resStatus := by
  cases s <;> first | rfl | cases h

theorem Along.alike {calls : List Call} (h : Along data p r calls) {next : HttpParser}
    (hstatus : r.parser.state = .resStatus → next.status_code = r.parser.status_code) :
    Alike data p calls { r with parser := next } ⟨next, initialMarks r.parser.state, []⟩
      (marking r.parser.state) := by
  cases h with
  | start hp hr empty =>
      subst hp
      rw [initialMarks_eq] at hr ⊢
      have hcalls : joined r.calls = joined (calls ++ []) := by rw [empty.1, empty.2]; rfl
      cases hmarking : marking r.parser.state with
      | inside f =>
          rw [markOf_of_marking hmarking] at hr ⊢
          exact .first hr rfl hcalls
      | clear | body =>
          rw [markOf_outside (by rw [hmarking]; nofun)] at hr ⊢
          exact .clear nofun hr rfl hcalls
  | clear outside hr same =>
      rw [initialMarks_eq, markOf_outside outside]
      refine .clear outside hr rfl ?_
      rw [List.append_nil]
      exact same
  | @inside f m within le hr same =>
      have hcall : ∀ text, dataCall next text f = dataCall r.parser text f := by
        intro text
        cases f with
        | status =>
            have hstate := state_of_status (within.resolve_right fun h => by cases h.1)
            rw [dataCall, dataCall, hstatus hstate]
        | headerField | headerValue | url | body => rfl
      have hcalls : joined (r.calls ++ [dataCall next (between data m p) f]) =
          joined (calls ++ []) := by
        rw [hcall, List.append_nil]
        exact same
      rw [initialMarks_eq]
      rcases within with hmarking | ⟨rfl, hmarking⟩
      · rw [hmarking, markOf_of_marking hmarking]
        exact .inside le hr rfl hcalls
      · rw [hmarking, markOf_outside (by rw [hmarking]; nofun)]
        exact .pending le hr rfl hcalls

/-- Behind the macros for a byte. -/
theorem Alike.along {before : List Call} {k : Marking} (h : Alike data p before r b k)
    (hparser : r.parser = b.parser) (hch : data[p]? = some ch)
    (hsettles : settles k (marking r.parser.state) = true) :
    Along data (p + 1) r (before ++ (b.flush [ch]).calls) := by
  cases k with
  | clear =>
      cases h with
      | clear _ hr hb calls =>
          rw [flush_unmarked hb]
          refine .clear (fun f hf => ?_) hr calls
          rw [hf] at hsettles
          cases hsettles
  | inside f =>
      have hwithin : marking r.parser.state = .inside f ∨
          (f = .body ∧ marking r.parser.state = .body) := by
        cases hmarking : marking r.parser.state with
        | inside g =>
            rw [hmarking] at hsettles
            left
            cases f <;> cases g <;> first | rfl | cases hsettles
        | clear =>
            rw [hmarking] at hsettles
            cases f <;> cases hsettles
        | body =>
            rw [hmarking] at hsettles
            cases f <;> first | exact .inr ⟨rfl, rfl⟩ | cases hsettles
      have hmarked : ∃ m ≤ p, r.marks = markedAt (some f) m ∧ b.marks = markedAt (some f) 0 := by
        cases h with
        | clear outside => exact absurd rfl (outside f)
        | first hr hb => exact ⟨p, le_rfl, hr, hb⟩
        | inside le hr hb => exact ⟨_, le, hr, hb⟩
      obtain ⟨m, hle, hr, hb⟩ := hmarked
      have hcallback := h.callback hparser hch le_rfl
      rw [flush_marked hb]
      refine .inside hwithin (Nat.le_succ_of_le hle) hr ?_
      cases hcallback with
      | clear _ _ _ calls =>
          rw [callbackData_marked hr] at calls
          exact calls
  | body =>
      cases hmarking : marking r.parser.state <;> rw [hmarking] at hsettles <;> cases hsettles

/-- The segment and its bytes alone: the same parser, and the same calls in other pieces. -/
def Reads (data : Bytes) (eaten : Eaten) : Crawled → Prop
  | .all r => ∃ calls, eaten = .all r.parser calls ∧ Along data data.length r calls
  | .left r n =>
      ∃ calls, eaten = .left r.parser calls (data.drop n) ∧ joined r.calls = joined calls
  | .failed => eaten = .failed

theorem crawl_reads {calls : List Call} (h : Along data p r calls) (hp : p ≤ data.length)
    {rest : Bytes} (hdrop : data.drop p = rest) :
    Reads data (eats r.parser calls rest) (r.crawl data p rest) := by
  induction rest generalizing p r calls with
  | nil =>
      obtain rfl : p = data.length := hp.antisymm (List.drop_eq_nil_iff.mp hdrop)
      exact ⟨calls, rfl, h⟩
  | cons ch rest ih =>
      have hlt := lt_of_drop hdrop
      have hnext : data.drop (p + 1) = rest := @drop_of_append data p rest [ch] hdrop
      have hch : data[p]? = some ch := by
        rw [← List.head?_drop, hdrop]
        rfl
      have hcoherent := eat_coherent r.parser ch
      rw [Run.crawl, eats]
      cases heat : eat r.parser ch with
      | next parser ops =>
          rw [heat] at hcoherent
          obtain ⟨k, htrack, hsettles⟩ := hcoherent
          have halike := (h.alike fun hstate => eat_status hstate (.inl heat)).ops rfl hch htrack
          have halong := halike.along (by rw [parser_ops, parser_ops]) hch
            (by rw [parser_ops]; exact hsettles)
          have hrest := ih halong hlt hnext
          rw [parser_ops] at hrest
          exact hrest
      | leave parser ops =>
          rw [heat] at hcoherent
          have halike := (h.alike fun hstate => eat_status hstate (.inr heat)).ops rfl hch
            hcoherent.1
          cases halike with
          | clear _ _ hb same =>
              refine ⟨calls ++ byteCalls r.parser.state ch parser ops, ?_, ?_⟩
              · rw [hnext, parser_ops]
              · rw [byteCalls, flush_unmarked hb]
                exact same
      | fail | abort => rfl

theorem countP_markedAt (f : Option Field) (m : ℕ) :
    Field.all.countP (fun g => (markedAt f m g).isSome) ≤ 1 := by
  cases f with
  | none => exact Nat.zero_le 1
  | some f => cases f <;> exact le_rfl

/-- The `assert` behind the loop holds, and what is marked is called. -/
theorem finish_of_along {calls : List Call} (h : Along data data.length r calls)
    (hdata : data ≠ []) :
    ∃ calls', r.finish data = some ⟨calls', data.length, r.parser⟩ ∧
      joined calls' = joined calls := by
  have hfinish : ∀ f m, r.marks = markedAt f m →
      r.finish data = some ⟨(r.flush data).calls, data.length, (r.flush data).parser⟩ := by
    intro f m hr
    rw [Run.finish, if_neg (not_lt.mpr (by rw [hr]; exact countP_markedAt f m))]
    rfl
  cases h with
  | start hp => exact absurd (List.length_eq_zero_iff.mp hp) hdata
  | clear _ hr same =>
      refine ⟨r.calls, ?_, same⟩
      rw [hfinish _ _ hr, flush_unmarked hr]
  | inside _ _ hr same =>
      refine ⟨_, ?_, same⟩
      rw [hfinish _ _ hr, flush_marked hr, callbackData_marked hr]

end Bytes

/-! ## Segments and bytes -/

/-- What a call of `http_parser_execute` says about the bytes taken one by one. -/
def Executes (data : Bytes) (result : Option Executed) : Eaten → Prop
  | .all parser calls =>
      Sound parser ∧ ∃ calls', result = some ⟨calls', data.length, parser⟩ ∧
        joined calls' = joined calls
  | .left parser calls rest =>
      Sound parser ∧ ∃ calls', result = some ⟨calls', data.length - rest.length, parser⟩ ∧
        joined calls' = joined calls
  | .failed =>
      ∃ executed, result = some executed ∧ executed.nparsed < data.length ∧
        executed.parser.http_errno ≠ .ok

/-- `http_parser_execute` does to a segment what it does to its bytes one after the other. -/
theorem execute_eats {parser : HttpParser} {data : Bytes} (hsound : Sound parser)
    (hdata : data ≠ []) (hlength : data.length < 2 ^ 31) :
    Executes data (execute parser data) (eats parser [] data) := by
  have hsound' : Sound (⟨parser, initialMarks parser.state, []⟩ : Run).parser := hsound
  have hends := loop_ends hlength hsound' (Nat.sub_le data.length 0)
  have hreads : Reads data (eats parser [] data)
      (Run.crawl data ⟨parser, initialMarks parser.state, []⟩ 0 data) :=
    crawl_reads (.start rfl rfl ⟨rfl, rfl⟩) (Nat.zero_le _) List.drop_zero
  rw [List.drop_zero] at hends
  rw [execute, if_neg (not_not.mpr hsound.http_errno), if_neg hdata]
  generalize Run.crawl data ⟨parser, initialMarks parser.state, []⟩ 0 data = crawled at hends hreads
  generalize eats parser [] data = eaten at hreads
  cases crawled with
  | all r =>
      obtain ⟨hsound', hresult⟩ := hends
      obtain ⟨calls, rfl, halong⟩ := hreads
      obtain ⟨calls', hfinish, hsame⟩ := finish_of_along halong hdata
      exact ⟨hsound', calls', hresult.trans hfinish, hsame⟩
  | left r n =>
      obtain ⟨hsound', hn, hresult⟩ := hends
      obtain ⟨calls, rfl, hsame⟩ := hreads
      refine ⟨hsound', r.calls, ?_, hsame⟩
      rw [List.length_drop, Nat.sub_sub_self hn]
      exact hresult
  | failed =>
      cases hreads
      exact hends

end LibConn.Parser
