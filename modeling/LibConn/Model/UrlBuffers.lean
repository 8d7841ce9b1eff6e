import LibConn.Model.HttpRequests

/-! # The buffers of `parseUrl`

What both functions `parseUrl` give to `strcpy`. -/

namespace LibConn.Http

/-- The arrays that `strcpy` writes to: `temp`, and three members of `url_st`. -/
inductive UrlBuffer where
  | temp
  | scheme
  | host
  | path
  deriving DecidableEq, Repr

def UrlBuffer.size : UrlBuffer → ℕ
  | .temp => 1024
  | .scheme => 8
  | .host => 32
  | .path => 256

/-- A call of `strcpy`, with the characters in front of the `'\0'`. -/
structure StrCpy where
  dest : UrlBuffer
  src : Bytes
  deriving DecidableEq, Repr

/-- The bytes that are written, with the `'\0'`, are within the array. -/
def StrCpy.fits (copy : StrCpy) : Prop :=
  copy.src.length + 1 ≤ copy.dest.size

instance decidableStrCpyFits (copy : StrCpy) : Decidable copy.fits :=
  inferInstanceAs (Decidable (copy.src.length + 1 ≤ copy.dest.size))

/-- The calls of `strcpy` that `parseUrl` makes. -/
def parseUrlCopies (url : Bytes) : List StrCpy :=
  ⟨.temp, cStr url⟩ ::
    match splitScheme (cStr url) with
    | none => []
    | some (scheme, host_ptr) =>
      ⟨.scheme, scheme⟩ ::
        match splitChar 58 host_ptr with
        | none => []
        | some (host, host_ptr) =>
          ⟨.host, host⟩ ::
            match splitChar 47 host_ptr with
            | some (_, path) => [⟨.path, path⟩]
            | none => [⟨.path, ascii "/"⟩]

/-- The member of `u` that a copy sets. -/
def Url.store (u : Url) (copy : StrCpy) : Url :=
  match copy.dest with
  | .temp => u
  | .scheme => { u with scheme := copy.src }
  | .host => { u with host := copy.src }
  | .path => { u with path := copy.src }

end LibConn.Http
