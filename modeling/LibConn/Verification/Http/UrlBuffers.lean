import LibConn.Model.UrlBuffers
import LibConn.Verification.Http.Urls

/-! # Copies that fit

No length is looked at before a `strcpy`: the copies fit exactly where the pieces that the URL
falls into are short enough. -/

namespace LibConn.Http

open LibConn.Lines

/-- The pieces of a URL, each up to the first separator, are shorter than their arrays. -/
def UrlFits (url : Bytes) : Prop :=
  (cStr url).length < 1024 ∧
    ∀ scheme behind, cStr url = scheme ++ ascii "://" ++ behind →
      ¬ ascii "://" <:+: scheme ++ ascii ":/" → scheme.length < 8 ∧
        ∀ host rest, behind = host ++ 58 :: rest → 58 ∉ host → host.length < 32 ∧
          ∀ port path, rest = port ++ 47 :: path → 47 ∉ port → path.length < 256

theorem strcpy_of_fits {buffer : UrlBuffer} {src : Bytes} (h : StrCpy.fits ⟨buffer, src⟩) :
    strcpy buffer.size src = some src :=
  strcpy_of_lt h

theorem strcpy_of_not_fits {buffer : UrlBuffer} {src : Bytes} (h : ¬ StrCpy.fits ⟨buffer, src⟩) :
    strcpy buffer.size src = none :=
  if_neg h

/-- `parseUrl` has a result exactly where all copies fit. It has stored what it copied, and the
port. -/
theorem parseUrl_store (url : Bytes) (u : Url) :
    ((parseUrl url u).isSome ↔ ∀ copy ∈ parseUrlCopies url, copy.fits) ∧
      ∀ result ∈ parseUrl url u, result.2 =
        { (parseUrlCopies url).foldl Url.store u with port := result.2.port } := by
  rw [parseUrl, parseUrlCopies, List.forall_mem_cons]
  by_cases htemp : StrCpy.fits ⟨.temp, cStr url⟩
  swap
  · rw [show strcpy 1024 (cStr url) = none from strcpy_of_not_fits htemp]
    simp [htemp]
  rw [show strcpy 1024 (cStr url) = some (cStr url) from strcpy_of_fits htemp]
  simp only [Option.bind_eq_bind, Option.bind_some]
  cases splitScheme (cStr url) with
  | none => simp [htemp, Url.store]
  | some pieces =>
      obtain ⟨scheme, host_ptr⟩ := pieces
      dsimp only
      rw [List.forall_mem_cons]
      by_cases hscheme : StrCpy.fits ⟨.scheme, scheme⟩
      swap
      · rw [show strcpy 8 scheme = none from strcpy_of_not_fits hscheme]
        simp [hscheme]
      rw [show strcpy 8 scheme = some scheme from strcpy_of_fits hscheme]
      cases splitChar 58 host_ptr with
      | none => simp [htemp, hscheme, Url.store]
      | some pieces =>
          obtain ⟨host, rest⟩ := pieces
          dsimp only [Option.bind_some]
          rw [List.forall_mem_cons]
          by_cases hhost : StrCpy.fits ⟨.host, host⟩
          swap
          · rw [show strcpy 32 host = none from strcpy_of_not_fits hhost]
            simp [hhost]
          rw [show strcpy 32 host = some host from strcpy_of_fits hhost]
          cases splitChar 47 rest with
          | none =>
              have hslash : StrCpy.fits ⟨.path, ascii "/"⟩ := by decide
              rw [show strcpy 256 (ascii "/") = some (ascii "/") from strcpy_of_fits hslash]
              simp [htemp, hscheme, hhost, hslash, Url.store]
          | some pieces =>
              obtain ⟨port, path⟩ := pieces
              dsimp only [Option.bind_some]
              by_cases hpath : StrCpy.fits ⟨.path, path⟩
              · rw [show strcpy 256 path = some path from strcpy_of_fits hpath]
                simp [htemp, hscheme, hhost, hpath, Url.store]
              · rw [show strcpy 256 path = none from strcpy_of_not_fits hpath]
                simp [hpath]

theorem occurs_of_starts {s scheme behind : Bytes} {b : UInt8}
    (hpre : ascii "://" <+: b :: s)
    (heq : b :: s = (b :: scheme) ++ ascii "://" ++ behind) :
    ascii "://" <:+: (b :: scheme) ++ ascii ":/" := by
  have hother : (b :: scheme) ++ ascii ":/" <+: b :: s := by
    rw [heq]
    exact ⟨ascii "/" ++ behind, by simp [ascii]⟩
  exact (List.prefix_of_prefix_length_le hpre hother (by simp [ascii])).isInfix

/-- The first `"://"`. -/
theorem splitScheme_eq_some_iff {s scheme behind : Bytes} :
    splitScheme s = some (scheme, behind) ↔
      s = scheme ++ ascii "://" ++ behind ∧ ¬ ascii "://" <:+: scheme ++ ascii ":/" := by
  induction s generalizing scheme with
  | nil =>
      refine ⟨fun h => absurd h (by simp [splitScheme]), fun h => ?_⟩
      have hlen := congrArg List.length h.1
      simp [ascii] at hlen
  | cons b s ih =>
      rw [splitScheme]
      by_cases hpre : ascii "://" <+: b :: s
      · rw [if_pos (List.isPrefixOf_iff_prefix.mpr hpre)]
        constructor
        · intro h
          obtain ⟨rfl, rfl⟩ := Prod.mk.inj (Option.some.inj h)
          obtain ⟨rest, hrest⟩ := hpre
          rw [← hrest, ← (List.cons.inj hrest).2]
          exact ⟨rfl, by decide⟩
        · rintro ⟨heq, hfirst⟩
          cases scheme with
          | nil =>
              rw [(List.cons.inj heq).2]
              rfl
          | cons c scheme =>
              obtain rfl := (List.cons.inj heq).1
              exact absurd (occurs_of_starts hpre heq) hfirst
      · rw [if_neg (List.isPrefixOf_iff_prefix.not.mpr hpre)]
        constructor
        · intro h
          obtain ⟨⟨scheme', behind'⟩, hrest, hcons⟩ := Option.map_eq_some_iff.mp h
          obtain ⟨rfl, rfl⟩ := Prod.mk.inj hcons
          obtain ⟨rfl, hfirst⟩ := ih.mp hrest
          refine ⟨rfl, fun hinfix => ?_⟩
          rcases List.infix_cons_iff.mp hinfix with hstart | hinfix
          · exact hpre (hstart.trans ⟨ascii "/" ++ behind', by simp [ascii]⟩)
          · exact hfirst hinfix
        · rintro ⟨heq, hfirst⟩
          cases scheme with
          | nil => exact absurd ⟨behind, heq.symm⟩ hpre
          | cons c scheme =>
              obtain ⟨rfl, hs⟩ := List.cons.inj heq
              have hrest : ¬ ascii "://" <:+: scheme ++ ascii ":/" := fun hinfix =>
                hfirst (List.infix_cons_iff.mpr (.inr hinfix))
              rw [ih.mpr ⟨hs, hrest⟩]
              rfl

theorem splitChar_eq_some_iff {c : UInt8} {s before behind : Bytes} :
    splitChar c s = some (before, behind) ↔ s = before ++ c :: behind ∧ c ∉ before := by
  rw [splitChar_eq_cut]
  refine ⟨cut_some, ?_⟩
  rintro ⟨rfl, hbefore⟩
  exact cut_append hbefore

theorem urlFits_iff (url : Bytes) :
    UrlFits url ↔ (cStr url).length < 1024 ∧
      ∀ scheme behind, splitScheme (cStr url) = some (scheme, behind) → scheme.length < 8 ∧
        ∀ host rest, splitChar 58 behind = some (host, rest) → host.length < 32 ∧
          ∀ port path, splitChar 47 rest = some (port, path) → path.length < 256 := by
  simp only [UrlFits, splitScheme_eq_some_iff, splitChar_eq_some_iff, and_imp]

theorem forall_pieces_iff {a b : Bytes} {p : Bytes → Bytes → Prop} :
    (∀ a' b', some (a, b) = some (a', b') → p a' b') ↔ p a b := by
  refine ⟨fun h => h a b rfl, fun h a' b' heq => ?_⟩
  obtain ⟨rfl, rfl⟩ := Prod.mk.inj (Option.some.inj heq)
  exact h

/-- Every `strcpy` fits exactly where the pieces do. -/
theorem copies_fit_iff (url : Bytes) : (∀ copy ∈ parseUrlCopies url, copy.fits) ↔ UrlFits url := by
  rw [urlFits_iff, parseUrlCopies, List.forall_mem_cons]
  refine and_congr Iff.rfl ?_
  cases splitScheme (cStr url) with
  | none => simp
  | some pieces =>
      obtain ⟨scheme, host_ptr⟩ := pieces
      rw [List.forall_mem_cons, forall_pieces_iff]
      refine and_congr Iff.rfl ?_
      cases splitChar 58 host_ptr with
      | none => simp
      | some pieces =>
          obtain ⟨host, rest⟩ := pieces
          rw [List.forall_mem_cons, forall_pieces_iff]
          refine and_congr Iff.rfl ?_
          cases splitChar 47 rest with
          | none => simp [StrCpy.fits, UrlBuffer.size, ascii]
          | some pieces =>
              obtain ⟨port, path⟩ := pieces
              rw [List.forall_mem_singleton, forall_pieces_iff]
              exact Iff.rfl

/-- A host of 32 characters leaves no room for the `'\0'`. -/
theorem not_copies_fit_host :
    ¬ ∀ copy ∈ parseUrlCopies (ascii "http://an.subdomain.of.some.example.com:80/"), copy.fits := by
  decide

end LibConn.Http
