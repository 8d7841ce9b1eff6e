import LibConn.Verification.Parser.Segments

/-! # Streams

What the segments of a stream come to, whatever they are: no `assert` of the parser fails, a
segment is taken whole if there is neither an error nor an upgrade, and where the stream is cut
shows in no string that the callbacks put together. -/

namespace LibConn.Parser

open LibConn.Http

/-- The parsers behind any sequence of calls, also calls with no data. -/
inductive Reached : HttpParser → Prop where
  | init (t : ParserType) : Reached (.init t)
  | call {parser : HttpParser} {data : Bytes} {executed : Executed} :
      Reached parser → data.length < 2 ^ 31 → execute parser data = some executed →
      Reached executed.parser

/-- Segments in their order, each but the last taken whole: the calls, how many bytes were taken,
and the parser. -/
inductive Feeds : HttpParser → List Bytes → List Call → ℕ → HttpParser → Prop where
  | last {parser : HttpParser} {data : Bytes} {executed : Executed} :
      execute parser data = some executed →
      Feeds parser [data] executed.calls executed.nparsed executed.parser
  | more {parser last : HttpParser} {data : Bytes} {executed : Executed} {segments : List Bytes}
      {calls : List Call} {n : ℕ} :
      execute parser data = some executed → executed.nparsed = data.length →
      executed.parser.http_errno = .ok → Feeds executed.parser segments calls n last →
      Feeds parser (data :: segments) (executed.calls ++ calls) (data.length + n) last

section Streams

variable {parser : HttpParser} {data : Bytes} {executed : Executed}

theorem eats_left {parser last : HttpParser} {calls calls' : List Call} {rest : Bytes}
    (h : eats parser calls data = .left last calls' rest) :
    last.upgrade = true ∧ rest.length < data.length := by
  induction data generalizing parser calls with
  | nil => cases h
  | cons ch data ih =>
      have hcoherent := eat_coherent parser ch
      rw [eats] at h
      cases heat : eat parser ch with
      | next next ops =>
          rw [heat] at h
          obtain ⟨hupgrade, hlt⟩ := ih h
          exact ⟨hupgrade, Nat.lt_succ_of_lt hlt⟩
      | leave next ops =>
          rw [heat] at h hcoherent
          cases h
          exact ⟨hcoherent.2, Nat.lt_succ_self _⟩
      | fail | abort =>
          rw [heat] at h
          cases h

theorem execute_spec (hsound : Sound parser) (hdata : data ≠ []) (hlength : data.length < 2 ^ 31) :
    ∃ executed, execute parser data = some executed ∧ executed.nparsed ≤ data.length ∧
      (executed.parser.http_errno = .ok → Sound executed.parser) ∧
      (executed.parser.http_errno ≠ .ok → executed.nparsed < data.length) ∧
      (executed.nparsed < data.length →
        executed.parser.http_errno ≠ .ok ∨ executed.parser.upgrade = true) := by
  have hexecutes := execute_eats hsound hdata hlength
  cases heats : eats parser [] data with
  | all last calls =>
      rw [heats] at hexecutes
      obtain ⟨hsound', calls', hresult, -⟩ := hexecutes
      exact ⟨_, hresult, le_rfl, fun _ => hsound', fun h => absurd hsound'.http_errno h,
        fun h => absurd h (lt_irrefl _)⟩
  | left last calls rest =>
      rw [heats] at hexecutes
      obtain ⟨hsound', calls', hresult, -⟩ := hexecutes
      exact ⟨_, hresult, Nat.sub_le _ _, fun _ => hsound', fun h => absurd hsound'.http_errno h,
        fun _ => .inr (eats_left heats).1⟩
  | failed =>
      rw [heats] at hexecutes
      obtain ⟨executed, hresult, hlt, herrno⟩ := hexecutes
      exact ⟨executed, hresult, hlt.le, fun h => absurd h herrno, fun _ => hlt, fun _ => .inl herrno⟩

theorem executeEof_sound (hsound : Sound parser)
    (h : (executeEof parser).parser.http_errno = .ok) : Sound (executeEof parser).parser := by
  unfold executeEof at h ⊢
  split at h <;> first | exact hsound | cases h

theorem Reached.sound (h : Reached parser) (herrno : parser.http_errno = .ok) : Sound parser := by
  induction h with
  | init t => exact sound_init t
  | @call parser data executed hreached hlength hexecute ih =>
      rw [execute] at hexecute
      by_cases hok : parser.http_errno = .ok
      · by_cases hdata : data = []
        · rw [if_neg (not_not.mpr hok), if_pos hdata] at hexecute
          obtain rfl := Option.some.inj hexecute
          exact executeEof_sound (ih hok) herrno
        · obtain ⟨executed', hresult, -, hsound, -⟩ := execute_spec (ih hok) hdata hlength
          rw [execute] at hresult
          obtain rfl := Option.some.inj (hexecute.symm.trans hresult)
          exact hsound herrno
      · rw [if_pos hok] at hexecute
        obtain rfl := Option.some.inj hexecute
        exact absurd herrno hok

theorem executeEof_nparsed (parser : HttpParser) :
    (executeEof parser).nparsed = 0 ∨ (executeEof parser).parser.http_errno ≠ .ok := by
  unfold executeEof
  split <;> first | exact .inl rfl | exact .inr nofun

/-- Whatever the peer sends, however it is cut, and whenever the stream ends: no `assert` fails and
no array is left, and a call takes what it is given unless it reports an error or an upgrade. -/
theorem execute_of_reached (h : Reached parser) (hlength : data.length < 2 ^ 31) :
    ∃ executed, execute parser data = some executed ∧
      (executed.nparsed = data.length ∨ executed.parser.http_errno ≠ .ok ∨
        executed.parser.upgrade = true ∧ executed.nparsed < data.length) := by
  by_cases hok : parser.http_errno = .ok
  · by_cases hdata : data = []
    · subst hdata
      refine ⟨executeEof parser, ?_, ?_⟩
      · rw [execute, if_neg (not_not.mpr hok), if_pos rfl]
      · exact (executeEof_nparsed parser).imp_right .inl
    · obtain ⟨executed, hresult, hle, -, -, hshort⟩ := execute_spec (h.sound hok) hdata hlength
      refine ⟨executed, hresult, ?_⟩
      rcases hle.lt_or_eq with hlt | heq
      · rcases hshort hlt with herrno | hupgrade
        · exact .inr (.inl herrno)
        · exact .inr (.inr ⟨hupgrade, hlt⟩)
      · exact .inl heq
  · exact ⟨_, by rw [execute, if_pos hok], .inr (.inl hok)⟩

theorem execute_of_reached_init :
    ∃ executed, execute (.init .both) (ascii "GET /") = some executed ∧
      (executed.nparsed = (ascii "GET /").length ∨ executed.parser.http_errno ≠ .ok ∨
        executed.parser.upgrade = true ∧ executed.nparsed < (ascii "GET /").length) :=
  execute_of_reached (.init .both) (by decide)

theorem executes_behind {later : Bytes} {executed' : Executed} {calls : List Call} {eaten : Eaten}
    (hleft : ∀ last calls rest, eaten = .left last calls rest → rest.length ≤ later.length)
    (hlater : Executes later (some executed') eaten)
    (hwhole : Executes (data ++ later) (some executed) (eaten.behind calls)) :
    (executed.parser.http_errno = .ok →
      executed'.parser.http_errno = .ok ∧ executed'.parser = executed.parser ∧
        data.length + executed'.nparsed = executed.nparsed ∧
        joined executed.calls = joined (calls ++ executed'.calls)) ∧
      (executed.parser.http_errno ≠ .ok → executed'.parser.http_errno ≠ .ok) := by
  cases eaten with
  | all last more =>
      obtain ⟨hsound, calls', hresult, hsame⟩ := hlater
      obtain ⟨-, calls'', hresult', hsame'⟩ := hwhole
      obtain rfl := Option.some.inj hresult
      obtain rfl := Option.some.inj hresult'
      refine ⟨fun _ => ⟨hsound.http_errno, rfl, ?_, hsame'.trans (joined_append rfl hsame.symm)⟩,
        fun h => absurd hsound.http_errno h⟩
      rw [List.length_append]
  | left last more rest =>
      have hle := hleft last more rest rfl
      obtain ⟨hsound, calls', hresult, hsame⟩ := hlater
      obtain ⟨-, calls'', hresult', hsame'⟩ := hwhole
      obtain rfl := Option.some.inj hresult
      obtain rfl := Option.some.inj hresult'
      refine ⟨fun _ => ⟨hsound.http_errno, rfl, ?_, hsame'.trans (joined_append rfl hsame.symm)⟩,
        fun h => absurd hsound.http_errno h⟩
      dsimp only
      rw [List.length_append]
      omega
  | failed =>
      obtain ⟨executed₁, hresult, -, herrno⟩ := hlater
      obtain ⟨executed₂, hresult', -, herrno'⟩ := hwhole
      obtain rfl := Option.some.inj hresult
      obtain rfl := Option.some.inj hresult'
      exact ⟨fun h => absurd h herrno', fun _ => herrno⟩

/-- How a stream is cut shows in nothing but the pieces. The parts are taken whole up to where the
whole stream is taken, with the same calls and the same parser behind them; and where the whole
stream is refused, one of the parts is. -/
def FedAlike (parser : HttpParser) (segments : List Bytes) (executed : Executed) : Prop :=
  ∃ fed rest calls n last, segments = fed ++ rest ∧ Feeds parser fed calls n last ∧
    (executed.parser.http_errno = .ok →
      n = executed.nparsed ∧ last = executed.parser ∧ joined calls = joined executed.calls ∧
        (executed.nparsed = segments.flatten.length → rest = [])) ∧
    (executed.parser.http_errno ≠ .ok → last.http_errno ≠ .ok)

theorem fedAlike_one (h : execute parser data = some executed) :
    FedAlike parser [data] executed :=
  ⟨[data], [], _, _, _, rfl, .last h, fun _ => ⟨rfl, rfl, rfl, fun _ => rfl⟩, id⟩

theorem fedAlike_failed {executed' : Executed} {segments : List Bytes}
    (h : execute parser data = some executed') (hfirst : executed'.parser.http_errno ≠ .ok)
    (hwhole : executed.parser.http_errno ≠ .ok) : FedAlike parser (data :: segments) executed :=
  ⟨[data], segments, _, _, _, rfl, .last h, fun hok => absurd hok hwhole, fun _ => hfirst⟩

/-- Nothing behind an upgrade is looked at. -/
theorem fedAlike_left {last : HttpParser} {calls calls' : List Call} {rest : Bytes}
    {segments : List Bytes} (h : execute parser data = some ⟨calls, data.length - rest.length, last⟩)
    (hok : last.http_errno = .ok) (hsame : joined calls = joined calls')
    (hle : rest.length ≤ data.length) (hlt : 0 < rest.length + segments.flatten.length) :
    FedAlike parser (data :: segments)
      ⟨calls', (data ++ segments.flatten).length - (rest ++ segments.flatten).length, last⟩ := by
  have hn : data.length - rest.length =
      (data ++ segments.flatten).length - (rest ++ segments.flatten).length := by
    rw [List.length_append, List.length_append]
    omega
  refine ⟨[data], segments, _, _, _, rfl, .last h, fun _ => ⟨hn, rfl, hsame, fun hall => ?_⟩,
    fun herrno => absurd hok herrno⟩
  dsimp only at hall
  rw [← hn, List.flatten_cons, List.length_append] at hall
  omega

theorem FedAlike.more {last : HttpParser} {calls : List Call} {executed' : Executed}
    {segments : List Bytes} (hfed : FedAlike last segments executed')
    (h : execute parser data = some ⟨calls, data.length, last⟩) (hlast : last.http_errno = .ok)
    (hboth : executed.parser.http_errno = .ok →
      executed'.parser.http_errno = .ok ∧ executed'.parser = executed.parser ∧
        data.length + executed'.nparsed = executed.nparsed ∧
        joined executed.calls = joined (calls ++ executed'.calls))
    (hneither : executed.parser.http_errno ≠ .ok → executed'.parser.http_errno ≠ .ok) :
    FedAlike parser (data :: segments) executed := by
  obtain ⟨fed, rest, more, n, last', hsegments, hfeeds, hok, herr⟩ := hfed
  refine ⟨data :: fed, rest, calls ++ more, data.length + n, last', by rw [hsegments]; rfl,
    .more h rfl hlast hfeeds, fun herrno => ?_, fun herrno => herr (hneither herrno)⟩
  obtain ⟨hok', hparser, hn, hcalls⟩ := hboth herrno
  obtain ⟨hn', hsame, hmore, hrest⟩ := hok hok'
  refine ⟨by rw [hn', hn], hsame.trans hparser, ?_, fun htaken => ?_⟩
  · exact (joined_append rfl hmore).trans hcalls.symm
  · rw [List.flatten_cons, List.length_append] at htaken
    exact hrest (by omega)

theorem feeds_of_flatten (hsound : Sound parser) {segments : List Bytes} (hne : segments ≠ [])
    (hall : ∀ data ∈ segments, data ≠ []) (hlength : segments.flatten.length < 2 ^ 31)
    (h : execute parser segments.flatten = some executed) :
    FedAlike parser segments executed := by
  induction segments generalizing parser executed with
  | nil => exact absurd rfl hne
  | cons data segments ih =>
      by_cases hrest : segments = []
      · subst hrest
        rw [List.flatten_cons, List.flatten_nil, List.append_nil] at h
        exact fedAlike_one h
      have hdata := hall data List.mem_cons_self
      have hbehind : ∀ data' ∈ segments, data' ≠ [] :=
        fun data' hdata' => hall data' (List.mem_cons_of_mem _ hdata')
      have hlater : segments.flatten ≠ [] := by
        obtain ⟨next, segments, rfl⟩ := List.exists_cons_of_ne_nil hrest
        exact List.append_ne_nil_of_left_ne_nil (hbehind next List.mem_cons_self) _
      rw [List.flatten_cons] at hlength h
      have hwhole := execute_eats hsound (List.append_ne_nil_of_left_ne_nil hdata _) hlength
      rw [List.length_append] at hlength
      have hshort : data.length < 2 ^ 31 := by omega
      have hlaterLength : segments.flatten.length < 2 ^ 31 := by omega
      have hfirst := execute_eats hsound hdata hshort
      rw [h] at hwhole
      cases heats : eats parser [] data with
      | failed =>
          rw [heats] at hfirst
          rw [eats_append_failed heats] at hwhole
          obtain ⟨executed', hresult, -, herrno⟩ := hfirst
          obtain ⟨executed'', hsame, -, herrno'⟩ := hwhole
          obtain rfl := Option.some.inj hsame
          exact fedAlike_failed hresult herrno herrno'
      | left last calls rest =>
          rw [heats] at hfirst
          rw [eats_append_left heats] at hwhole
          obtain ⟨hsound', calls', hresult, hsame⟩ := hfirst
          obtain ⟨-, calls'', hexecuted, hsame'⟩ := hwhole
          obtain rfl := Option.some.inj hexecuted
          have hpos := List.length_pos_of_ne_nil hlater
          exact fedAlike_left hresult hsound'.http_errno (hsame.trans hsame'.symm)
            (eats_left heats).2.le (by omega)
      | all last calls =>
          rw [heats] at hfirst
          rw [eats_append heats] at hwhole
          obtain ⟨hsound', calls', hresult, hsame⟩ := hfirst
          have hcalls := eats_calls last calls [] segments.flatten
          rw [List.append_nil] at hcalls
          rw [hcalls] at hwhole
          obtain ⟨executed', hexecute, -⟩ := execute_spec hsound' hlater hlaterLength
          have hsecond := execute_eats hsound' hlater hlaterLength
          rw [hexecute] at hsecond
          obtain ⟨hboth, hneither⟩ :=
            executes_behind (fun _ _ _ h => (eats_left h).2.le) hsecond hwhole
          refine (ih hsound' hrest hbehind hlaterLength hexecute).more hresult hsound'.http_errno
            (fun herrno => ?_) hneither
          obtain ⟨hok, hparser, hn, hsame'⟩ := hboth herrno
          exact ⟨hok, hparser, hn, hsame'.trans (joined_append hsame rfl).symm⟩

/-- Where the whole stream is taken, its segments are, with the same parser behind them and the same
calls but for the pieces; where it is refused, they are. -/
theorem segments_alike {parser : HttpParser} {executed : Executed} {segments : List Bytes}
    (h : Reached parser) (hok : parser.http_errno = .ok) (hne : segments ≠ [])
    (hall : ∀ data ∈ segments, data ≠ []) (hlength : segments.flatten.length < 2 ^ 31)
    (hexecute : execute parser segments.flatten = some executed) :
    (executed.parser.http_errno = .ok → executed.nparsed = segments.flatten.length →
      ∃ calls, Feeds parser segments calls executed.nparsed executed.parser ∧
        joined calls = joined executed.calls) ∧
    (executed.parser.http_errno ≠ .ok →
      ∃ fed calls n last, fed <+: segments ∧ Feeds parser fed calls n last ∧
        last.http_errno ≠ .ok) := by
  obtain ⟨fed, rest, calls, n, last, rfl, hfeeds, hwhole, hrefused⟩ :=
    feeds_of_flatten (h.sound hok) hne hall hlength hexecute
  constructor
  · intro herrno htaken
    obtain ⟨rfl, rfl, hcalls, hrest⟩ := hwhole herrno
    obtain rfl := hrest htaken
    rw [List.append_nil]
    exact ⟨calls, hfeeds, hcalls⟩
  · intro herrno
    exact ⟨fed, calls, n, last, List.prefix_append _ _, hfeeds, hrefused herrno⟩

theorem segments_alike_init :
    ∃ executed, execute (.init .both) [ascii "GE", ascii "T /"].flatten = some executed ∧
      ((executed.parser.http_errno = .ok →
          executed.nparsed = [ascii "GE", ascii "T /"].flatten.length →
        ∃ calls, Feeds (.init .both) [ascii "GE", ascii "T /"] calls executed.nparsed
            executed.parser ∧
          joined calls = joined executed.calls) ∧
      (executed.parser.http_errno ≠ .ok →
        ∃ fed calls n last, fed <+: [ascii "GE", ascii "T /"] ∧
          Feeds (.init .both) fed calls n last ∧ last.http_errno ≠ .ok)) := by
  obtain ⟨executed, hexecute, -⟩ :=
    @execute_spec (.init .both) [ascii "GE", ascii "T /"].flatten (sound_init .both) (by decide)
      (by decide)
  exact ⟨executed, hexecute,
    segments_alike (.init .both) rfl (by decide) (by decide) (by decide) hexecute⟩

end Streams

end LibConn.Parser
