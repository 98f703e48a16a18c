import Mathlib

/-!
# User agents

`Shortener.Shared/Entities/UserAgent.cs`. The parser itself is a package;
`HttpUserAgentInformation` is what it returns.
-/

namespace Shortener.Stats

/-- `UserAgentType`. -/
inductive UserAgentType
  | unknown
  | browser
  | robot
  deriving DecidableEq, Repr

/-- `PlatformType`. -/
inductive PlatformType
  | windows
  | linux
  | ios
  | macOs
  | android
  | other
  deriving DecidableEq, Repr

/-- `BrowserType`. -/
inductive BrowserType
  | chrome
  | edge
  | firefox
  | internetExplorer
  | opera
  | safari
  | other
  deriving DecidableEq, Repr

/-- The names of the members, as `ToString` and the serializer of dictionaries give them. -/
instance : ToString UserAgentType where
  toString
    | .unknown => "Unknown"
    | .browser => "Browser"
    | .robot => "Robot"

instance : ToString PlatformType where
  toString
    | .windows => "Windows"
    | .linux => "Linux"
    | .ios => "Ios"
    | .macOs => "MacOs"
    | .android => "Android"
    | .other => "Other"

instance : ToString BrowserType where
  toString
    | .chrome => "Chrome"
    | .edge => "Edge"
    | .firefox => "Firefox"
    | .internetExplorer => "InternetExplorer"
    | .opera => "Opera"
    | .safari => "Safari"
    | .other => "Other"

/-- `Platform`. -/
structure Platform where
  type : PlatformType
  name : String
  deriving DecidableEq, Repr

/-- `Browser`. -/
structure Browser where
  type : BrowserType
  name : String
  version : Option String
  deriving DecidableEq, Repr

/-- `UserAgent`. -/
structure UserAgent where
  type : UserAgentType
  platform : Option Platform
  browser : Option Browser
  mobileDeviceType : Option String
  deriving DecidableEq, Repr

/-- `HttpUserAgentType` of the parser. -/
inductive HttpUserAgentType
  | unknown
  | browser
  | robot
  deriving DecidableEq, Repr

/-- `HttpUserAgentPlatformType`; `Parse` tells the other members not apart. -/
inductive HttpUserAgentPlatformType
  | windows
  | linux
  | ios
  | macOs
  | android
  | other
  deriving DecidableEq, Repr

/-- What the parser returns. -/
structure HttpUserAgentInformation where
  type : HttpUserAgentType
  platform : Option (HttpUserAgentPlatformType × String)
  name : Option String
  version : Option String
  mobileDeviceType : Option String
  deriving DecidableEq, Repr

/-- The `switch` on `info.Name` (lines 65–74). -/
def browserTypeOf (name : String) : BrowserType :=
  if name = "Chrome" then .chrome
  else if name = "Edge" then .edge
  else if name = "Firefox" then .firefox
  else if name = "Internet Explorer" then .internetExplorer
  else if name = "Opera" then .opera
  else if name = "Safari" then .safari
  else .other

/-- `UserAgent.Parse` (lines 39–80). -/
def UserAgent.parse (info : HttpUserAgentInformation) : UserAgent where
  type :=
    match info.type with
    | .browser => .browser
    | .robot => .robot
    | .unknown => .unknown
  platform := info.platform.map fun (type, name) =>
    { type :=
        match type with
        | .windows => .windows
        | .linux => .linux
        | .ios => .ios
        | .macOs => .macOs
        | .android => .android
        | .other => .other
      name := name }
  browser := info.name.map fun name =>
    { type := browserTypeOf name, name := name, version := info.version }
  mobileDeviceType := info.mobileDeviceType

end Shortener.Stats
