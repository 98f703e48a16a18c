import Shortener.Codec.ShortId
import Shortener.DotNet.Text

/-!
# HTTP URLs

`UrlUtils.IsValidHttpUrl` (`Shortener.Shared/Utils/UrlUtils.cs`) and the short URLs of
`ShortIdUtils` (`Shortener.Shared/Utils/ShortIdUtils.cs`, lines 24–71) and `ShortUrlService`
(`Shortener.Shared/Services/ShortUrlService.cs`). `Uri.TryCreate` of the runtime is a
parameter; nothing in this development depends on which texts it accepts.
-/

namespace Shortener.Codec

open Shortener.DotNet

/-- What the code reads from a `Uri`. -/
structure Uri where
  scheme : String
  host : String
  absolutePath : String
  deriving DecidableEq, Repr

/-- `UrlRegex`, that is `^https?:\/\/`, ignoring case. -/
def matchesUrlRegex (s : String) : Bool :=
  ["http://", "https://"].any fun start => start.toList.isPrefixOf (s.toList.map Char.toLower)

/-- `IsValidHttpUrl`: `resultUri` if it returns true. -/
def isValidHttpUrl (tryCreate : String → Option Uri) (s : String) : Option Uri :=
  (tryCreate (if matchesUrlRegex s then s else "https://" ++ s)).filter fun resultUri =>
    resultUri.scheme = "http" ∨ resultUri.scheme = "https"

/-- The part of a short URL that `TryParseUrl` and `ParseUrl` pass to `ParseId`. -/
def shortIdOfUrl (tryCreate : String → Option Uri) (shortUrl : String) : Option String :=
  (isValidHttpUrl tryCreate shortUrl).bind fun uri =>
    match uri.absolutePath.toList with
    | '/' :: path => if isValidBase62 (String.ofList path) then some (String.ofList path) else none
    | _ => none

/-- `TryParseUrl`. -/
def tryParseUrl (tryCreate : String → Option Uri) (shortUrl : String) : Exec (Option ShortId) :=
  match shortIdOfUrl tryCreate shortUrl with
  | some path => some <$> parseId path
  | none => .ret none

/-- `ParseUrl`. -/
def parseUrl (tryCreate : String → Option Uri) (shortUrl : String) : Exec ShortId :=
  match shortIdOfUrl tryCreate shortUrl with
  | some path => parseId path
  | none => .throw (.argument s!"Invalid shortUrl: {shortUrl}" (some shortUrl))

/-- The fields of `ShortUrlService`. -/
structure ShortUrlService where
  scheme : String
  host : String

namespace ShortUrlService

variable (service : ShortUrlService)

/-- The short URL of a printed id. -/
def link (shortId : String) : String :=
  service.scheme ++ "://" ++ service.host ++ "/" ++ shortId

/-- `Get(ShortId id)`, that is `id.ToString(_scheme, _host)`. -/
def getById (id : ShortId) : Exec String := do
  let shortId ← id.toString
  return service.link shortId

/-- `Get(string shortId)`. The regular expression throws on null. -/
def get : Option String → Exec String
  | some shortId => parseId shortId >>= service.getById
  | none => .throw (.argument "Value cannot be null." (some "input"))

/-- Printing what was parsed gives the code back. -/
theorem get_code {s : String} (h : IsCode s) : service.get (some s) = .ret (service.link s) := by
  obtain ⟨id, hparse, hprint⟩ := toString_parseId h
  rw [get, hparse, Exec.ret_bind, getById, hprint]
  rfl

theorem getById_eq {id : ShortId} {s : String} (h : id.toString = .ret s) :
    service.getById id = .ret (service.link s) := by
  rw [getById, h]
  rfl

theorem link_injective : Function.Injective service.link := by
  intro s t h
  exact (String.append_right_inj _).mp h

end ShortUrlService

end Shortener.Codec
