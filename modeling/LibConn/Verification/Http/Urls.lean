import LibConn.Verification.Http.Requests
import LibConn.Verification.Http.Strings

/-! # The parts of a URL

Both functions `parseUrl` cut at the first `"://"`, the first colon behind it, and the first
slash behind that: the parts come back where there is a port and a path. -/

namespace LibConn.Http

open LibConn.Lines

/-! ## Cutting -/

theorem splitChar_eq_cut (c : UInt8) (s : Bytes) : splitChar c s = cut c s := by
  induction s with
  | nil => rfl
  | cons b s ih => rw [splitChar, cut, ih]

theorem splitScheme_append {scheme : Bytes} (hcolon : 58 ∉ scheme) (behind : Bytes) :
    splitScheme (scheme ++ ascii "://" ++ behind) = some (scheme, behind) := by
  induction scheme with
  | nil => rfl
  | cons b scheme ih =>
      obtain ⟨hb, hscheme⟩ := not_or.mp (List.mem_cons.not.mp hcolon)
      have hnot : ¬ (ascii "://").isPrefixOf (b :: (scheme ++ ascii "://" ++ behind)) = true := by
        rw [List.isPrefixOf_iff_prefix]
        exact fun hpre => hb (List.cons_prefix_cons.mp hpre).1
      rw [List.cons_append, List.cons_append, splitScheme, if_neg hnot, ih hscheme]
      rfl

theorem splitScheme_eq_none {s : Bytes} (h : ¬ ascii "://" <:+: s) : splitScheme s = none := by
  induction s with
  | nil => rfl
  | cons b s ih =>
      obtain ⟨hpre, hrest⟩ := not_or.mp (List.infix_cons_iff.not.mp h)
      rw [splitScheme, if_neg (List.isPrefixOf_iff_prefix.not.mpr hpre), ih hrest]
      rfl

theorem HttpClient.parseUrl_eq : HttpClient.parseUrl = Http.parseUrl :=
  rfl

theorem strcpy_of_lt {size : ℕ} {src : Bytes} (h : src.length < size) : strcpy size src = some src :=
  if_pos h

/-! ## Ports -/

theorem atoi_of_decimal {text : Bytes} {n : ℕ} (h : decimal text = some n) (hn : n < 2 ^ 31) :
    atoi text = n := by
  have hdigit := digit_of_decimal h
  obtain ⟨⟨hne, -⟩, h⟩ := Option.ite_none_right_eq_some.mp h
  obtain ⟨b, rest, rfl⟩ := List.exists_cons_of_ne_nil hne
  obtain ⟨hlow, hhigh⟩ := hdigit b List.mem_cons_self
  have hnot : ∀ c : UInt8, c < 48 → b ≠ c := by
    rintro c hc rfl
    exact absurd hlow (not_le.mpr hc)
  have hdrop : (b :: rest).dropWhile (fun b => b = 32 || (9 ≤ b && b ≤ 13)) = b :: rest := by
    have h13 : ¬ b ≤ 13 := fun h13 => absurd (hlow.trans h13) (by decide)
    exact List.dropWhile_cons_of_neg (by simp [hnot 32 (by decide), h13])
  have htake : (b :: rest).takeWhile (fun b => 48 ≤ b && b ≤ 57) = b :: rest :=
    List.takeWhile_eq_self_iff.mpr fun c hc => by simpa using hdigit c hc
  have hlong : strtol (b :: rest) = min (n : ℤ) (2 ^ 63 - 1) := by
    rw [strtol, hdrop]
    split
    case h_1 heq => exact absurd (List.cons.inj heq).1 (hnot 45 (by decide))
    case h_2 heq => exact absurd (List.cons.inj heq).1 (hnot 43 (by decide))
    case h_3 =>
      dsimp only
      rw [htake, ← Option.some.inj h]
  rw [atoi, hlong, min_eq_left (by omega), int32, Int.bmod_def]
  split_ifs <;> omega

/-! ## URLs -/

/-- A URL `scheme://host[:port][/path]`. -/
structure UrlParts where
  scheme : Bytes
  host : Bytes
  port : Option ℕ
  path : Option Bytes
  scheme_lt : scheme.length < 8
  scheme_bytes : ∀ b ∈ scheme, b ≠ 0 ∧ b ≠ 58
  host_lt : host.length < 32
  host_bytes : ∀ b ∈ host, b ≠ 0 ∧ b ≠ 58 ∧ b ≠ 47
  port_le : ∀ n ∈ port, n ≤ 65535
  path_lt : ∀ p ∈ path, p.length < 256
  path_bytes : ∀ p ∈ path, ∀ b ∈ p, b ≠ 0

/-- The port of a scheme. -/
def defaultPort (scheme : Bytes) : Option ℕ :=
  if scheme = ascii "http" ∨ scheme = ascii "ws" then some 80
  else if scheme = ascii "https" ∨ scheme = ascii "wss" then some 443
  else none

namespace UrlParts

variable (parts : UrlParts)

/-- What follows the host. -/
def portText : Bytes :=
  match parts.port with
  | some n => ascii ":" ++ ascii (toString n)
  | none => []

def pathText : Bytes :=
  match parts.path with
  | some p => ascii "/" ++ p
  | none => []

def text : Bytes :=
  parts.scheme ++ ascii "://" ++ (parts.host ++ parts.portText ++ parts.pathText)

/-- What a request line asks for. -/
def target : Bytes :=
  ascii "/" ++ parts.path.getD []

end UrlParts

/-- The value returned, the members of `u`, and the line that `fill_http_header` makes of them. -/
structure ParsedAs (parts : UrlParts) (result : ℤ × Url) : Prop where
  returns : result.1 = 0
  scheme : result.2.scheme = parts.scheme
  host : result.2.host = parts.host
  port : ∀ n ∈ parts.port.or (defaultPort parts.scheme), result.2.port = n
  target : ∀ req : HttpRequest, req.method = .get ∨ req.method = .post →
    httpMethodStr req.method ++ ascii " " ++ parts.target ++ ascii " HTTP/1.1\r\n" <+:
      fillHttpHeader req result.2 []

variable {parts : UrlParts} {u₀ : Url}

theorem digit_of_mem_toString {n : ℕ} : ∀ b ∈ ascii (toString n), 48 ≤ b ∧ b ≤ 57 :=
  digit_of_decimal (decimal_repr n)

theorem notMem_toString {n : ℕ} {b : UInt8} (hb : b < 48 ∨ 57 < b) :
    b ∉ ascii (toString n) := by
  intro hmem
  obtain ⟨hlow, hhigh⟩ := digit_of_mem_toString b hmem
  rcases hb with hb | hb
  · exact not_le.mpr hb hlow
  · exact not_le.mpr hb hhigh

theorem UrlParts.zero_notMem_text (parts : UrlParts) : 0 ∉ parts.text := by
  have hport : 0 ∉ parts.portText := by
    rw [UrlParts.portText]
    cases parts.port with
    | none => exact List.not_mem_nil
    | some n =>
        rw [List.mem_append, not_or]
        exact ⟨by decide, notMem_toString (.inl (by decide))⟩
  have hpath : 0 ∉ parts.pathText := by
    rw [UrlParts.pathText]
    cases hp : parts.path with
    | none => exact List.not_mem_nil
    | some p =>
        rw [List.mem_append, not_or]
        exact ⟨by decide, fun h => parts.path_bytes p hp 0 h rfl⟩
  simp only [UrlParts.text, List.mem_append, not_or]
  exact ⟨⟨fun h => (parts.scheme_bytes 0 h).1 rfl, by decide⟩,
    ⟨fun h => (parts.host_bytes 0 h).1 rfl, hport⟩, hpath⟩

theorem length_toString_le {n : ℕ} (h : n < 10 ^ 5) : (ascii (toString n)).length ≤ 5 := by
  have hdigits : (Nat.toDigits 10 n).length ≤ 5 :=
    (Nat.length_toDigits_le_iff (by decide) (by decide)).mpr h
  rw [ascii, List.length_map]
  exact Nat.toList_repr ▸ hdigits

theorem UrlParts.text_lt (parts : UrlParts) : parts.text.length < 1024 := by
  have hscheme := parts.scheme_lt
  have hhost := parts.host_lt
  have hport : parts.portText.length ≤ 6 := by
    rw [UrlParts.portText]
    cases hport : parts.port with
    | none => exact Nat.zero_le 6
    | some n =>
        have hlt : n < 10 ^ 5 := Nat.lt_of_le_of_lt (parts.port_le n hport) (by decide)
        have hdigits := length_toString_le hlt
        rw [List.length_append]
        exact Nat.add_comm _ _ ▸ Nat.succ_le_succ hdigits
  have hpath : parts.pathText.length ≤ 256 := by
    rw [UrlParts.pathText]
    cases hpath : parts.path with
    | none => exact Nat.zero_le 256
    | some p =>
        have hlt := parts.path_lt p hpath
        rw [List.length_append]
        exact Nat.add_comm _ _ ▸ hlt
  simp only [UrlParts.text, List.length_append]
  have hseparator : (ascii "://").length = 3 := rfl
  omega

theorem strcpy_text (parts : UrlParts) : strcpy 1024 (cStr parts.text) = some (cStr parts.text) := by
  rw [cStr_of_notMem parts.zero_notMem_text]
  exact strcpy_of_lt parts.text_lt

theorem splitScheme_text (parts : UrlParts) :
    splitScheme (cStr parts.text) =
      some (parts.scheme, parts.host ++ parts.portText ++ parts.pathText) := by
  rw [cStr_of_notMem parts.zero_notMem_text, UrlParts.text]
  exact splitScheme_append (fun h => (parts.scheme_bytes 58 h).2 rfl) _

theorem splitChar_port {n : ℕ} (hport : parts.port = some n) :
    splitChar 58 (parts.host ++ parts.portText ++ parts.pathText) =
      some (parts.host, ascii (toString n) ++ parts.pathText) := by
  have hhost : 58 ∉ parts.host := fun h => (parts.host_bytes 58 h).2.1 rfl
  have hbehind : parts.host ++ parts.portText ++ parts.pathText =
      parts.host ++ 58 :: (ascii (toString n) ++ parts.pathText) := by
    rw [UrlParts.portText, hport, List.append_assoc]
    rfl
  rw [splitChar_eq_cut, hbehind, cut_append hhost]

theorem atoi_port {n : ℕ} (hport : parts.port = some n) : atoi (ascii (toString n)) = n := by
  have hle := parts.port_le n hport
  exact atoi_of_decimal (decimal_repr n) (by omega)

theorem parseUrl_path {n : ℕ} {p : Bytes} (hport : parts.port = some n)
    (hpath : parts.path = some p) (u₀ : Url) :
    parseUrl parts.text u₀ = some (0, ⟨parts.scheme, parts.host, n, p⟩) := by
  have hsplit : splitChar 47 (ascii (toString n) ++ parts.pathText) =
      some (ascii (toString n), p) := by
    rw [splitChar_eq_cut, UrlParts.pathText, hpath]
    exact cut_append (notMem_toString (.inl (by decide)))
  simp only [parseUrl, strcpy_text, strcpy_of_lt parts.scheme_lt, strcpy_of_lt parts.host_lt,
    strcpy_of_lt (parts.path_lt p hpath), Option.bind_some, splitScheme_text, splitChar_port hport,
    hsplit, atoi_port hport, bind, pure]

theorem parseUrl_noPath {n : ℕ} (hport : parts.port = some n) (hpath : parts.path = none)
    (u₀ : Url) : parseUrl parts.text u₀ = some (0, ⟨parts.scheme, parts.host, n, ascii "/"⟩) := by
  have hsplit : splitChar 47 (ascii (toString n) ++ parts.pathText) = none := by
    rw [splitChar_eq_cut, UrlParts.pathText, hpath, cut_eq_none_iff, List.append_nil]
    exact notMem_toString (.inl (by decide))
  have hslash : strcpy 256 (ascii "/") = some (ascii "/") := rfl
  simp only [parseUrl, strcpy_text, strcpy_of_lt parts.scheme_lt, strcpy_of_lt parts.host_lt, hslash,
    Option.bind_some, splitScheme_text, splitChar_port hport, hsplit, bind, pure]
  rw [UrlParts.pathText, hpath, List.append_nil, atoi_port hport]

theorem parseUrl_host {url scheme behind host rest : Bytes} {result : ℤ × Url}
    (h : result ∈ parseUrl url u₀) (hscheme : splitScheme (cStr url) = some (scheme, behind))
    (hhost : splitChar 58 behind = some (host, rest)) : result.2.host = host := by
  obtain ⟨temp, htemp, h⟩ := Option.bind_eq_some_iff.mp h
  obtain ⟨-, htemp⟩ := Option.ite_none_right_eq_some.mp htemp
  obtain rfl := Option.some.inj htemp
  rw [hscheme] at h
  obtain ⟨_, -, h⟩ := Option.bind_eq_some_iff.mp h
  rw [hhost] at h
  obtain ⟨copied, hcopied, h⟩ := Option.bind_eq_some_iff.mp h
  obtain ⟨-, hcopied⟩ := Option.ite_none_right_eq_some.mp hcopied
  obtain rfl := Option.some.inj hcopied
  split at h <;>
    (obtain ⟨_, -, h⟩ := Option.bind_eq_some_iff.mp h
     obtain rfl := Option.some.inj h
     rfl)

theorem parseUrl_noPort (hport : parts.port = none) :
    ∃ u₀, ∀ result ∈ parseUrl parts.text u₀, result.2.host ≠ parts.host := by
  have hbehind : parts.host ++ parts.portText ++ parts.pathText = parts.host ++ parts.pathText := by
    rw [UrlParts.portText, hport, List.append_nil]
  have hnone : ∀ before, parts.host ≠ parts.host ++ 47 :: before := by
    intro before heq
    simpa using congrArg List.length heq
  cases hcut : splitChar 58 (parts.host ++ parts.portText ++ parts.pathText) with
  | none =>
      refine ⟨⟨[], parts.host ++ [47], 0, []⟩, ?_⟩
      simp only [parseUrl, strcpy_text, strcpy_of_lt parts.scheme_lt, splitScheme_text, hcut,
        Option.bind_some, bind, pure, Option.mem_some_iff, forall_eq']
      exact (hnone []).symm
  | some pieces =>
      obtain ⟨host, rest⟩ := pieces
      have hhost : host ≠ parts.host := by
        rintro rfl
        rw [splitChar_eq_cut] at hcut
        obtain ⟨heq, -⟩ := cut_some hcut
        rw [hbehind, UrlParts.pathText] at heq
        cases hp : parts.path with
        | none => simp [hp] at heq
        | some p =>
            rw [hp] at heq
            have hslash := List.append_cancel_left heq
            exact absurd (List.cons.inj hslash).1 (by decide)
      refine ⟨⟨[], [], 0, []⟩, fun result hresult => ?_⟩
      have hstored := parseUrl_host hresult (by rw [splitScheme_text]) hcut
      rw [hstored]
      exact hhost

theorem requestLine_prefix (req : HttpRequest) (u : Url)
    (h : req.method = .get ∨ req.method = .post) :
    requestLine req.method u ++ [13, 10] <+: fillHttpHeader req u [] := by
  rw [fillHttpHeader_eq, firstLines, if_pos h, List.singleton_append, spell_cons]
  exact ⟨spell ((writtenFields req u).map fieldLine) [], by simp⟩

theorem not_parsedAs_noPath {n : ℕ} (hport : parts.port = some n) (hpath : parts.path = none)
    (u₀ : Url) : ¬ ∃ result ∈ parseUrl parts.text u₀, ParsedAs parts result := by
  rintro ⟨result, hresult, h⟩
  rw [parseUrl_noPath hport hpath, Option.mem_some_iff] at hresult
  obtain rfl := hresult
  have htarget := h.target ⟨[], .get, .empty, [], 0⟩ (.inl rfl)
  rw [UrlParts.target, hpath] at htarget
  have hline : ascii "GET // HTTP/1.1\r\n" <+: _ :=
    requestLine_prefix ⟨[], .get, .empty, [], 0⟩ ⟨parts.scheme, parts.host, n, ascii "/"⟩ (.inl rfl)
  have hcomparable := List.prefix_of_prefix_length_le htarget hline (by decide)
  revert hcomparable
  decide

theorem parsedAs_path {n : ℕ} {p : Bytes} (hport : parts.port = some n)
    (hpath : parts.path = some p) (u₀ : Url) :
    ∃ result ∈ parseUrl parts.text u₀, ParsedAs parts result := by
  refine ⟨_, parseUrl_path hport hpath u₀, rfl, rfl, rfl, fun m hm => ?_, fun req hmethod => ?_⟩
  · rw [hport, Option.some_or] at hm
    obtain rfl := Option.some.inj hm
    rfl
  · have hbytes : 0 ∉ p := fun h => parts.path_bytes p hpath 0 h rfl
    have hline : httpMethodStr req.method ++ ascii " " ++ parts.target ++
        ascii " HTTP/1.1\r\n" =
        requestLine req.method ⟨parts.scheme, parts.host, n, p⟩ ++ [13, 10] := by
      rw [requestLine, cStr_of_notMem hbytes, UrlParts.target, hpath]
      simp only [Option.getD_some, List.append_assoc]
      rfl
    rw [hline]
    exact requestLine_prefix req _ hmethod

/-- Both functions return -1 for a text without `"://"` exactly where it fits `temp`, and take a URL
apart exactly where it has a port and a path. -/
theorem parseUrl_iff (url : Bytes) (u : Url) (parts : UrlParts) :
    (¬ ascii "://" <:+: url →
      (((HttpClient.parseUrl url u).map Prod.fst = some (-1) ∧
          (parseUrl url u).map Prod.fst = some (-1)) ↔
        (cStr url).length < 1024)) ∧
      ((∀ u₀, (∃ result ∈ HttpClient.parseUrl parts.text u₀, ParsedAs parts result) ∧
          ∃ result ∈ parseUrl parts.text u₀, ParsedAs parts result) ↔
        parts.port.isSome ∧ parts.path.isSome) := by
  rw [HttpClient.parseUrl_eq]
  refine ⟨fun h => ?_, fun h => ?_, fun ⟨hport, hpath⟩ u₀ => ?_⟩
  · have hnone : splitScheme (cStr url) = none :=
      splitScheme_eq_none fun hsub => h (hsub.trans (cStr_starts url).isInfix)
    rw [and_self_iff, parseUrl, strcpy]
    by_cases hfits : (cStr url).length < 1024 <;> simp [hfits, hnone]
  · have hport : parts.port.isSome := by
      by_contra hport
      obtain ⟨u₀, hhost⟩ := parseUrl_noPort (Option.not_isSome_iff_eq_none.mp hport)
      obtain ⟨-, result, hresult, hparts⟩ := h u₀
      exact hhost result hresult hparts.host
    obtain ⟨n, hn⟩ := Option.isSome_iff_exists.mp hport
    refine ⟨hport, ?_⟩
    by_contra hpath
    have hpath' := Option.not_isSome_iff_eq_none.mp hpath
    exact not_parsedAs_noPath hn hpath' ⟨[], [], 0, []⟩ (h _).2
  · obtain ⟨n, hn⟩ := Option.isSome_iff_exists.mp hport
    obtain ⟨p, hp⟩ := Option.isSome_iff_exists.mp hpath
    exact ⟨parsedAs_path hn hp u₀, parsedAs_path hn hp u₀⟩

/-- `http://220.181.111.1:80` -/
def exampleUrl : UrlParts where
  scheme := ascii "http"
  host := ascii "220.181.111.1"
  port := some 80
  path := none
  scheme_lt := by decide
  scheme_bytes := by decide +kernel
  host_lt := by decide
  host_bytes := by decide +kernel
  port_le := by decide
  path_lt := by simp
  path_bytes := by simp

/-- A host alone is no URL. -/
theorem parseUrl_iff_host :
    (HttpClient.parseUrl (ascii "localhost") ⟨[], [], 0, []⟩).map Prod.fst = some (-1) ∧
      (parseUrl (ascii "localhost") ⟨[], [], 0, []⟩).map Prod.fst = some (-1) :=
  ((parseUrl_iff (ascii "localhost") ⟨[], [], 0, []⟩ exampleUrl).1 (by decide +kernel)).mpr
    (by decide)

/-- The request line asks for `//`. -/
theorem not_parsedAs_example :
    ¬ ∃ result ∈ HttpClient.parseUrl (ascii "http://220.181.111.1:80") ⟨[], [], 0, []⟩,
      ParsedAs exampleUrl result := by
  have htext : ascii "http://220.181.111.1:80" = exampleUrl.text := rfl
  rw [htext, HttpClient.parseUrl_eq]
  exact not_parsedAs_noPath rfl rfl _

end LibConn.Http
