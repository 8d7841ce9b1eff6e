import LibConn.Verification.Parser.Methods

/-! # Request targets

The url between two spaces, as `parse_url_char` walks through it. One that begins with a slash is
taken exactly where it is visible ASCII. -/

namespace LibConn.Parser

open LibConn.Http

/-- `parse_url_char` as a step that refuses a byte. -/
def urlStep (s : State) (ch : UInt8) : Option State :=
  if parseUrlChar s ch = .dead then none else some (parseUrlChar s ch)

/-- The state in front of a url. -/
def urlStart (method : HttpMethod) : State :=
  if method = .connect then .reqServerStart else .reqSpacesBeforeUrl

/-- The states in which a url may end. -/
def urlEnds : State → Bool
  | .reqServer | .reqServerWithAt | .reqPath | .reqQueryStringStart | .reqQueryString
  | .reqFragmentStart | .reqFragment => true
  | _ => false

/-- The url leads to a state in which it may end. -/
def Targets (method : HttpMethod) (url : Bytes) : Prop :=
  ∃ s, url ≠ [] ∧ url.foldlM urlStep (urlStart method) = some s ∧ urlEnds s = true

/-- The states of a path and of what follows it. -/
def inPath : State → Bool
  | .reqPath | .reqQueryStringStart | .reqQueryString | .reqFragmentStart | .reqFragment => true
  | _ => false

/-- A byte that is printed and is no space. -/
def visible (ch : UInt8) : Bool :=
  33 ≤ ch && ch ≤ 126

section Targets

variable {parser : HttpParser} {ch : UInt8} {url rest : Bytes} {s s' : State} {n : ℕ}
  {method : HttpMethod}

theorem urlStep_some (h : urlStep s ch = some s') : markOf s' = some .url := by
  rw [urlStep] at h
  split_ifs at h with hdead
  obtain rfl := Option.some.inj h
  exact (parseUrlChar_cases s ch).resolve_left hdead

theorem urlStep_break (hch : ch = ' '.toUInt8 ∨ ch = CR ∨ ch = LF) (s : State) :
    urlStep s ch = none := by
  have hdead : parseUrlChar s ch = .dead := by
    unfold parseUrlChar
    exact if_pos (by simpa [or_assoc] using hch)
  rw [urlStep, if_pos hdead]

theorem urlChar_eq (parser : HttpParser) (ch : UInt8) (ops : List Op) :
    urlChar parser ch ops =
      match urlStep parser.state ch with
      | some s => .next (parser.enter s) ops
      | none => .fail (parser.enter .dead) ops .invalidUrl := by
  rw [urlChar, urlStep]
  by_cases hdead : parseUrlChar parser.state ch = .dead
  · rw [if_pos hdead]
    exact (if_pos hdead).trans (by rw [hdead])
  · rw [if_neg hdead]
    exact if_neg hdead

/-- A byte that a url may go on with, where it has begun. -/
theorem single_urlByte (hstate : markOf parser.state = some .url)
    (hch : ch ≠ ' '.toUInt8 ∧ ch ≠ CR ∧ ch ≠ LF) : single parser ch = urlChar parser ch [] := by
  obtain ⟨hspace, hcr, hlf⟩ := hch
  have hschema : reqSchema parser ch = urlChar parser ch [] := by
    rw [reqSchema, if_neg (by simp [hspace, hcr, hlf])]
  have hurl : reqUrl parser ch = urlChar parser ch [] := by
    rw [reqUrl, if_neg hspace, if_neg (by simp [hcr, hlf])]
  rw [single, oneByte]
  cases h : parser.state <;> rw [h] at hstate <;>
    first
      | exact absurd hstate (by decide)
      | exact hschema
      | exact hurl

theorem header_of_url (hstate : markOf s = some .url) : parsingHeader s = true := by
  cases s <;> first | rfl | exact absurd hstate (by decide)

/-- The bytes of a url behind the first one. -/
theorem url_simulates (parser : HttpParser) :
    Simulates (fun s => markOf s = some .url) parser.enter urlStep (fun ch => [.url [ch]])
      (fun ch => ch ≠ ' '.toUInt8 ∧ ch ≠ CR ∧ ch ≠ LF) where
  taken s ch s' hs hstep := by
    have hs' := urlStep_some hstep
    have hbreak : ch ≠ ' '.toUInt8 ∧ ch ≠ CR ∧ ch ≠ LF := by
      refine ⟨?_, ?_, ?_⟩ <;> rintro rfl <;> rw [urlStep_break (by simp)] at hstep <;> cases hstep
    refine ⟨hs', ⟨header_of_url hs, fun n => ?_⟩, byteCalls_inside ch _ hs⟩
    rw [single_urlByte (by exact hs) hbreak, urlChar_eq]
    dsimp only [HttpParser.enter, HttpParser.withNread]
    rw [hstep]
  refused s ch hs hstep hbreak := by
    refine ⟨header_of_url hs, fun n => ?_⟩
    rw [single_urlByte (by exact hs) hbreak, urlChar_eq]
    dsimp only [HttpParser.enter, HttpParser.withNread]
    rw [hstep]
    exact ⟨_, _, _, rfl⟩

/-- The first byte of a url. -/
theorem single_firstUrl (hstate : parser.state = .reqSpacesBeforeUrl) (hspace : ch ≠ ' '.toUInt8) :
    single parser ch =
      match urlStep (urlStart parser.method) ch with
      | some s => .next (parser.enter s) [.mark .url]
      | none => .fail (parser.enter .dead) [.mark .url] .invalidUrl := by
  have hstart : (if parser.method = .connect then parser.enter .reqServerStart else parser) =
      parser.enter (urlStart parser.method) := by
    rw [urlStart]
    split_ifs
    · rfl
    · rw [← hstate]
      rfl
  rw [single, oneByte, hstate]
  dsimp only [Option.getD_some]
  rw [reqSpacesBeforeUrl, if_neg hspace, hstart, urlChar_eq]
  rfl

theorem url_ends (hs : urlEnds s = true) :
    Passes (parser.enter s) ' '.toUInt8 (parser.enter .reqHttpStart) [.data .url] := by
  have hmark : markOf s = some .url := by
    cases s <;> first | rfl | exact absurd hs (by decide)
  refine ⟨header_of_url hmark, fun n => ?_⟩
  rw [single, oneByte]
  cases s <;> first | rfl | exact absurd hs (by decide)

theorem url_advances (hstate : parser.state = .reqSpacesBeforeUrl)
    (htarget : Targets parser.method url) :
    Advances parser (url ++ [' '.toUInt8]) [.url url] (parser.enter .reqHttpStart) := by
  obtain ⟨s, hne, hfold, hends⟩ := htarget
  cases url with
  | nil => exact absurd rfl hne
  | cons ch rest =>
      rw [List.foldlM_cons] at hfold
      obtain ⟨first, hfirst, hrest⟩ := Option.bind_eq_some_iff.mp hfold
      have hspace : ch ≠ ' '.toUInt8 := by
        rintro rfl
        rw [urlStep_break (.inl rfl)] at hfirst
        cases hfirst
      have hpasses : Passes parser ch (parser.enter first) [.mark .url] := by
        refine ⟨by rw [hstate]; rfl, fun n => ?_⟩
        rw [single_firstUrl (by exact hstate) hspace]
        dsimp only [HttpParser.withNread]
        rw [hfirst]
        rfl
      obtain ⟨hinside, hs⟩ := (url_simulates parser).advances (urlStep_some hfirst) hrest
      rw [← List.map_eq_flatMap] at hinside
      exact advances_string (joins_dataCall parser .url) hpasses (by rw [hstate]; rfl)
        (fun _ => rfl) hinside (url_ends hends) hs fun _ => rfl

/-! ## Targets that begin with a slash -/

theorem isUrlChar_iff : isUrlChar ch = true ↔
    visible ch = true ∧ ch ≠ '#'.toUInt8 ∧ ch ≠ '?'.toUInt8 := by
  simp only [isUrlChar, visible, Bool.and_eq_true, decide_eq_true_eq, and_assoc]

/-- Behind a slash there is no byte but a visible one, whatever state it is. -/
theorem inPath_step (hs : inPath s = true) (ch : UInt8) :
    if visible ch then ∃ s', urlStep s ch = some s' ∧ inPath s' = true else urlStep s ch = none := by
  have hurl := @isUrlChar_iff ch
  split_ifs with hvisible
  · have hlow : ch ≠ ' '.toUInt8 ∧ ch ≠ CR ∧ ch ≠ LF ∧ ch ≠ 9 ∧ ch ≠ 12 := by
      refine ⟨?_, ?_, ?_, ?_, ?_⟩ <;> rintro rfl <;> exact absurd hvisible (by decide)
    have hnext : inPath (parseUrlChar s ch) = true := by
      unfold parseUrlChar
      rw [if_neg (by simp [hlow]), if_neg (by simp [hlow])]
      by_cases hmark : ch = '#'.toUInt8
      · cases s <;> first | exact absurd hs (by decide) | (rw [hmark]; decide)
      · by_cases hquery : ch = '?'.toUInt8
        · cases s <;> first | exact absurd hs (by decide) | (rw [hquery]; decide)
        · have hchar := hurl.mpr ⟨hvisible, hmark, hquery⟩
          cases s <;> first | exact absurd hs (by decide) | (dsimp only; rw [if_pos hchar]; rfl)
    have hdead : parseUrlChar s ch ≠ .dead := by
      intro hdead
      rw [hdead] at hnext
      cases hnext
    exact ⟨_, if_neg hdead, hnext⟩
  · have hmark : ch ≠ '#'.toUInt8 ∧ ch ≠ '?'.toUInt8 := by
      constructor <;> rintro rfl <;> exact hvisible (by decide)
    have hchar : isUrlChar ch = false := Bool.eq_false_iff.mpr fun h => hvisible (hurl.mp h).1
    have hdead : parseUrlChar s ch = .dead := by
      unfold parseUrlChar
      rw [hchar]
      split
      · rfl
      split
      · rfl
      cases s <;> first | exact absurd hs (by decide) | simp [hmark]
    exact if_pos hdead

theorem inPath_foldlM (hs : inPath s = true) (rest : Bytes) :
    if rest.all visible then ∃ s', rest.foldlM urlStep s = some s' ∧ inPath s' = true
    else rest.foldlM urlStep s = none := by
  induction rest generalizing s with
  | nil => exact ⟨s, rfl, hs⟩
  | cons ch rest ih =>
      have hstep := inPath_step hs ch
      rw [List.foldlM_cons, List.all_cons]
      split_ifs at hstep with hvisible
      · obtain ⟨s', hnext, hs'⟩ := hstep
        rw [hnext, hvisible, Bool.true_and]
        exact ih hs'
      · rw [hstep, if_neg (by simp [hvisible])]
        rfl

theorem urlEnds_of_inPath (hs : inPath s = true) : urlEnds s = true := by
  cases s <;> first | rfl | exact absurd hs (by decide)

theorem urlStep_slash (hmethod : method ≠ .connect) :
    urlStep (urlStart method) '/'.toUInt8 = some .reqPath := by
  rw [urlStart, if_neg hmethod]
  decide

theorem targets_slash (hmethod : method ≠ .connect) (hvisible : rest.all visible = true) :
    Targets method ('/'.toUInt8 :: rest) := by
  have hfold := inPath_foldlM (s := .reqPath) rfl rest
  rw [if_pos hvisible] at hfold
  obtain ⟨s, hfold, hs⟩ := hfold
  refine ⟨s, List.cons_ne_nil _ _, ?_, urlEnds_of_inPath hs⟩
  rw [List.foldlM_cons, urlStep_slash hmethod]
  exact hfold

/-- A target that begins with a slash is taken exactly where all of it is visible ASCII; it is
called whole. -/
theorem target_iff (hstate : parser.state = .reqSpacesBeforeUrl)
    (hmethod : parser.method ≠ .connect)
    (hinside : ∀ b ∈ rest, b ≠ ' '.toUInt8 ∧ b ≠ CR ∧ b ≠ LF)
    (hn : n + rest.length + 2 ≤ maxHeaderSize) :
    (∃ last calls, eats (parser.withNread n) [] ('/'.toUInt8 :: rest ++ [' '.toUInt8]) =
        .all last calls ∧ joined calls = [.url ('/'.toUInt8 :: rest)]) ↔
      ∀ b ∈ rest, 33 ≤ b ∧ b ≤ 126 := by
  have hall : (∀ b ∈ rest, 33 ≤ b ∧ b ≤ 126) ↔ rest.all visible = true := by
    simp [visible]
  rw [hall]
  constructor
  · rintro ⟨last, calls, heats, -⟩
    by_contra hvisible
    have hfold := inPath_foldlM (s := .reqPath) rfl rest
    rw [if_neg hvisible] at hfold
    have hfailed := (url_simulates parser).eats_failed (s := .reqPath) (n := n + 1) rfl hfold
      hinside (by omega)
    rw [List.cons_append, eats, eat_withNread (by rw [hstate]; rfl) (by omega),
      single_firstUrl (by exact hstate) (by decide)] at heats
    dsimp only [HttpParser.withNread] at heats
    rw [urlStep_slash hmethod] at heats
    dsimp only at heats
    rw [← List.append_nil ([] ++ _), eats_calls] at heats
    have hfailed' := eats_append_failed (b := [' '.toUInt8]) hfailed
    have hcontra := (congrArg (Eaten.behind _) hfailed').symm.trans heats
    cases hcontra
  · intro hvisible
    obtain ⟨calls, heats, hcalls⟩ :=
      url_advances hstate (targets_slash hmethod hvisible) n (by simp; omega)
    exact ⟨_, calls, heats, hcalls⟩

theorem target_iff_query :
    (∃ last calls, eats (((HttpParser.init .both).behindMethod .get 4).withNread 4) []
        ('/'.toUInt8 :: ascii "a?b" ++ [' '.toUInt8]) = .all last calls ∧
        joined calls = [.url ('/'.toUInt8 :: ascii "a?b")]) ↔
      ∀ b ∈ ascii "a?b", 33 ≤ b ∧ b ≤ 126 :=
  target_iff rfl (by decide) (forall_mem_of_all (by decide)) (by decide)

end Targets

end LibConn.Parser
