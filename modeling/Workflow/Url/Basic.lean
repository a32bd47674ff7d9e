import Workflow.Url.Host
/-!
# Addresses

Reads an address the way browsers do: blanks around it and line breaks in it do not count, schemes
and hosts are brought to lower case, the usual port of a scheme is left out, steps up and in place
are resolved, and characters that may not stand where they do are encoded.  Reading gives the
parts of the normal form.
-/
namespace Workflow

/-- An address in its normal form. -/
structure Url where
  scheme : String
  userInfo : String
  host : String
  port : Option Nat
  path : String
  query : Option String
  fragment : Option String
  deriving DecidableEq

namespace Url

def usualPort? (scheme : String) : Option Nat :=
  [("http", 80), ("https", 443), ("ws", 80), ("wss", 443), ("ftp", 21)].lookup scheme

/-- Whether a scheme names hosts in the common way. -/
def isHostScheme (scheme : String) : Bool := (usualPort? scheme).isSome

/-- Drops the blanks and controls around a text, and the tabs and line breaks in it. -/
def clean (cs : List Char) : List Char :=
  let isEdge (c : Char) : Bool := c.toNat ≤ 0x20
  let inner := ((cs.dropWhile isEdge).reverse.dropWhile isEdge).reverse
  inner.filter (fun c => c != '\t' && c != '\n' && c != '\r')

/-- Splits a scheme off, in lower case. -/
def splitScheme? (cs : List Char) : Option (String × List Char) :=
  let name := cs.takeWhile (fun c => c.isAlphanum || c == '+' || c == '-' || c == '.')
  match name, cs.drop name.length with
  | first :: _, ':' :: rest =>
    if first.isAlpha then some (Text.asciiLower (String.ofList name), rest) else none
  | _, _ => none

/-- Whether a character ends the part of an address that names the host. -/
def endsAuthority (backslash : Bool) (c : Char) : Bool :=
  c == '/' || c == '?' || c == '#' || (backslash && c == '\\')

/-- Splits a text at the last of a character. -/
def splitLast (c : Char) (cs : List Char) : Option (List Char × List Char) :=
  if cs.contains c then
    let tail := (cs.reverse.takeWhile (fun d => d != c)).reverse
    some ((cs.take (cs.length - tail.length)).dropLast, tail)
  else none

/-- The name and password of a user in normal form. -/
def userInfoText (cs : List Char) : String :=
  let name := cs.takeWhile (fun c => c != ':')
  let password := (cs.drop name.length).drop 1
  String.ofList (encode inUserInfo name) ++
    (if password.isEmpty then "" else ":" ++ String.ofList (encode inUserInfo password))

/-- Splits the host from its port.  Colons in brackets belong to the host. -/
def splitPort : (inBrackets : Bool) → List Char → List Char × Option (List Char)
  | _, [] => ([], none)
  | inBrackets, c :: rest =>
    if c == ':' && !inBrackets then ([], some rest)
    else
      let stays := if c == '[' then true else if c == ']' then false else inBrackets
      let (host, port) := splitPort stays rest
      (c :: host, port)

/-- Reads a port; the usual one and an empty one count as none. -/
def readPort (scheme : String) (cs : List Char) : Except UrlError (Option Nat) :=
  if !cs.all Char.isDigit then .error .badPort
  else
    let n := cs.foldl (fun n c => min 65536 (n * 10 + (c.toNat - 48))) 0
    if n > 65535 then .error .badPort
    else if cs.isEmpty || usualPort? scheme = some n then .ok none
    else .ok (some n)

/-- The port behind a host, if the host is followed by one. -/
def portOf (scheme : String) : Option (List Char) → Except UrlError (Option Nat)
  | none => .ok none
  | some cs => readPort scheme cs

/-- Whether a segment means the place itself. -/
def isHere (s : List Char) : Bool :=
  ["." , "%2e"].contains (Text.asciiLower (String.ofList s))

/-- Whether a segment means a step up. -/
def isUp (s : List Char) : Bool :=
  ["..", ".%2e", "%2e.", "%2e%2e"].contains (Text.asciiLower (String.ofList s))

/-- Resolves the segments of a path; `done` holds the segments so far, the last one first. -/
def resolve : (done : List (List Char)) → List (List Char) → List (List Char)
  | done, [] => done.reverse
  | done, s :: rest =>
    if isUp s then resolve (if rest.isEmpty then [] :: done.drop 1 else done.drop 1) rest
    else if isHere s then resolve (if rest.isEmpty then [] :: done else done) rest
    else resolve (encode inPath s :: done) rest

/-- A path in normal form. -/
def pathText (backslash : Bool) (cs : List Char) : String :=
  let isSlash (c : Char) : Bool := c == '/' || (backslash && c == '\\')
  let inner := match cs with
    | c :: rest => if isSlash c then rest else cs
    | [] => []
  String.ofList ((resolve [] (splitBy isSlash inner)).flatMap (fun s => '/' :: s))

/-- Splits the query and the fragment off the rest of an address. -/
def splitTail (cs : List Char) : List Char × Option (List Char) × Option (List Char) :=
  let main := cs.takeWhile (fun c => c != '#')
  let fragment := match cs.drop main.length with
    | _ :: f => some f
    | [] => none
  let path := main.takeWhile (fun c => c != '?')
  let query := match main.drop path.length with
    | _ :: q => some q
    | [] => none
  (path, query, fragment)

/-- Puts the parts together once the host is known. -/
def assemble (scheme userInfo host : String) (port : Option Nat) (backslash : Bool)
    (rest : List Char) : Url :=
  let (path, query, fragment) := splitTail rest
  { scheme, userInfo, host, port
    path := pathText backslash path
    query := query.map (fun q => String.ofList (encode inQuery q))
    fragment := fragment.map (fun f => String.ofList (encode inFragment f)) }

/-- Reads what follows the slashes before a host. -/
def readHostPart (scheme : String) (common : Bool) (cs : List Char) : Except UrlError Url :=
  let authority := cs.takeWhile (fun c => !endsAuthority common c)
  let rest := cs.drop authority.length
  let (user, place) := (splitLast '@' authority).getD ([], authority)
  let (host, port) := splitPort false place
  if user.isEmpty && authority.contains '@' && place.isEmpty && !rest.isEmpty then .error .emptyHost
  else if host.isEmpty && (common || port.isSome) then .error .emptyHost
  else
    match (if common then hostText host else opaqueHostText host) with
    | .error e => .error e
    | .ok h =>
      match portOf scheme port with
      | .error e => .error e
      | .ok p => .ok (assemble scheme (userInfoText user) h p common rest)

def parse (text : String) : Except UrlError Url :=
  match splitScheme? (clean text.toList) with
  | none => .error .noScheme
  | some (scheme, rest) =>
    let isSlash (c : Char) : Bool := c == '/' || c == '\\'
    if isHostScheme scheme then readHostPart scheme true (rest.dropWhile isSlash)
    else if scheme = "file" then
      let slashes := (rest.take 2).takeWhile isSlash
      let cs := if slashes.length = 2 then rest.drop 2 else []
      let host := cs.takeWhile (fun c => !endsAuthority true c)
      if host.isEmpty then .ok (assemble scheme "" "" none true rest)
      else (hostText host).map (fun h => assemble scheme "" h none true (cs.drop host.length))
    else
      match rest with
      | '/' :: '/' :: cs => readHostPart scheme false cs
      | cs => .ok (assemble scheme "" "" none false cs)

/-- Whether the name of the user is the encoding of a text.  Then the user is told by a header of
the request and not by its address. -/
def isUserText (u : Url) : Bool :=
  (textOfBytes? (decodeBytes (u.userInfo.toList.takeWhile (fun c => c != ':')))).isSome

/-- The text of an address as a request shows it: without the name and password of a user, unless
the name is not the encoding of a text. -/
def text (u : Url) : String :=
  u.scheme ++ "://" ++ (if u.isUserText then "" else u.userInfo ++ "@") ++ u.host ++
    ((u.port.map (fun n => ":" ++ toString n)).getD "") ++ u.path ++
    ((u.query.map (fun q => "?" ++ q)).getD "") ++ ((u.fragment.map (fun f => "#" ++ f)).getD "")

/-- Whether a connection can be asked for the host.  A few characters may stand in the name of a
host, but not in a request. -/
def hasPlainHost (u : Url) : Bool :=
  !u.host.toList.any (fun c => ['"', '\x60', '\x7b', '\x7d'].contains c)

end Url
end Workflow
