import CimConsole.Target.Host
import CimConsole.Text.Blank

/-!
URLs in their normal form: small letters in scheme and host, no default port, no dot
segments in the path, and `%` codes for the characters that a part does not admit. Only
what the schemes `http` and `https` need is kept; of other schemes it is known whether
the text is a URL.
-/
namespace CimConsole

open Text

/-- A URL of a scheme with hosts, or of some other scheme. -/
structure Url where
  scheme : String
  text : String
deriving DecidableEq, Repr

namespace Url

def isControl (c : Char) : Bool := c.toNat < 0x20 || 0x7F ≤ c.toNat

def inFragmentSet (c : Char) : Bool := isControl c || [' ', '"', '<', '>', '\x60'].contains c

def inQuerySet (c : Char) : Bool := isControl c || [' ', '"', '#', '<', '>', '\''].contains c

def inPathSet (c : Char) : Bool := inFragmentSet c || ['#', '?', '\x7b', '\x7d'].contains c

def inUserSet (c : Char) : Bool :=
  inPathSet c || ['/', ':', ';', '=', '@', '[', '\\', ']', '^', '|'].contains c

/-- The `%` codes of the bytes of a character. -/
def percentCodes (c : Char) : List Char :=
  c.toString.toUTF8.toList.flatMap fun b => ['%', upperHex (b.toNat / 16), upperHex (b.toNat % 16)]

/-- The text with `%` codes for the characters of a set. -/
def percentEncode (set : Char → Bool) (cs : List Char) : List Char :=
  cs.flatMap fun c => if set c then percentCodes c else [c]

/-- The scheme in small letters and what follows its colon. -/
def readScheme (cs : List Char) : Option (String × List Char) :=
  let scheme := cs.takeWhile fun c => isLetterOrDigit c || ['+', '-', '.'].contains c
  match scheme, cs.drop scheme.length with
  | c :: _, ':' :: rest =>
    if isLetter c then some (String.ofList (scheme.map Char.toLower), rest) else none
  | _, _ => none

/-- The default ports of the schemes with hosts, `file` aside. -/
def specialPorts : List (String × Nat) :=
  [("http", 80), ("https", 443), ("ws", 80), ("wss", 443), ("ftp", 21)]

def endsAuthority (special : Bool) (c : Char) : Bool :=
  ['/', '?', '#'].contains c || (special && c == '\\')

/-- The user and password, with the `@` behind them. -/
def userText (cs : List Char) : List Char :=
  let (user, password) := (cutFirst ':' cs).getD (cs, [])
  let user := percentEncode inUserSet user
  let password := percentEncode inUserSet password
  if user.isEmpty && password.isEmpty then []
  else user ++ (if password.isEmpty then [] else ':' :: password) ++ ['@']

/-- The user information in front of the last `@` of the authority, and what follows. -/
def readUser (special : Bool) (cs : List Char) : Except UrlError (List Char × List Char) :=
  let authority := cs.takeWhile fun c => !endsAuthority special c
  let rest := cs.drop authority.length
  match cutLast '@' authority with
  | none => .ok ([], cs)
  | some (user, host) =>
    if user.isEmpty && host.isEmpty && !rest.isEmpty then .error .emptyHost
    else .ok (userText user, host ++ rest)

/-- The length of the host at the head of a text; a colon in brackets belongs to it. -/
def hostLength (special : Bool) : Bool → List Char → Nat
  | _, [] => 0
  | inBrackets, c :: rest =>
    if (c == ':' && !inBrackets) || endsAuthority special c then 0
    else hostLength special (c == '[' || (inBrackets && c != ']')) rest + 1

/-- The host of a URL whose scheme is not known to the rules. -/
def opaqueHost (cs : List Char) : Except UrlError String :=
  match cs with
  | '[' :: _ => bracketed cs
  | _ =>
    let forbidden := ['\x00', '\t', '\n', '\r', ' ', '#', '/', ':', '<', '>', '?', '@', '[', '\\', ']', '^', '|']
    if cs.any forbidden.contains then .error .invalidCharacter
    else .ok (String.ofList (percentEncode isControl cs))

/-- The port behind a colon; none without digits. -/
def readPort (cs : List Char) : Except UrlError (Option Nat × List Char) :=
  let digits := cs.takeWhile isDigit
  let rest := cs.drop digits.length
  let port := digits.foldl (fun n c => n * 10 + (c.toNat - '0'.toNat)) 0
  if 65535 < port then .error .invalidPort
  else
    match rest with
    | [] => .ok (if digits.isEmpty then none else some port, rest)
    | c :: _ =>
      if endsAuthority true c then .ok (if digits.isEmpty then none else some port, rest)
      else .error .invalidPort

def isDot (segment : List Char) : Bool :=
  [".", "%2e"].contains (foldCase (String.ofList segment))

def isDoubleDot (segment : List Char) : Bool :=
  ["..", "%2e.", ".%2e", "%2e%2e"].contains (foldCase (String.ofList segment))

/-- The segments of a path without dot segments; what is left is kept in reverse. -/
def normalSegments : List (List Char) → List (List Char) → List (List Char)
  | kept, [] => kept.reverse
  | kept, [last] =>
    if isDoubleDot last then ([] :: kept.tail).reverse
    else if isDot last then ([] :: kept).reverse
    else (last :: kept).reverse
  | kept, segment :: rest =>
    if isDoubleDot segment then normalSegments kept.tail rest
    else if isDot segment then normalSegments kept rest
    else normalSegments (segment :: kept) rest

/-- The normal form of a path behind the host. -/
def pathText (cs : List Char) : String :=
  let cs := cs.map fun c => if c == '\\' then '/' else c
  let cs := match cs with
    | '/' :: rest => rest
    | cs => cs
  let segments := (splitChars '/' cs).map (percentEncode inPathSet)
  "/" ++ join "/" ((normalSegments [] segments).map String.ofList)

/-- Path, query and fragment. -/
def tailText (cs : List Char) : String :=
  let (front, fragment) := match cutFirst '#' cs with
    | some (front, f) => (front, "#" ++ String.ofList (percentEncode inFragmentSet f))
    | none => (cs, "")
  let (path, query) := match cutFirst '?' front with
    | some (path, q) => (path, "?" ++ String.ofList (percentEncode inQuerySet q))
    | none => (front, "")
  pathText path ++ query ++ fragment

/-- What follows the scheme of a URL with a host. -/
def readAuthority (special : Option Nat) (cs : List Char) : Except UrlError String := do
  let isSpecial := special.isSome
  let (user, rest) ← readUser isSpecial cs
  let host := rest.take (hostLength isSpecial false rest)
  let rest := rest.drop host.length
  let hostText ← if isSpecial then specialHost host else opaqueHost host
  let portFollows := rest.head? == some ':'
  if hostText == "" && portFollows then .error .emptyHost
  else
    let (port, rest) ← if portFollows then readPort rest.tail else .ok (none, rest)
    let port := if port == special then none else port
    if hostText == "" && !user.isEmpty then .error .emptyHost
    else
      .ok (String.ofList user ++ hostText
        ++ (match port with
          | some n => ":" ++ toString n
          | none => "")
        ++ tailText rest)

/-- A URL of the scheme `file` may name a host. -/
def checkFile (cs : List Char) : Except UrlError Unit :=
  let slash (c : Char) : Bool := c == '/' || c == '\\'
  match cs with
  | a :: b :: rest =>
    if slash a && slash b then
      let host := rest.takeWhile fun c => !endsAuthority true c
      match host with
      | [] => .ok ()
      | [c, d] => if isLetter c && (d == ':' || d == '|') then .ok () else (specialHost host).map fun _ => ()
      | _ => (specialHost host).map fun _ => ()
    else .ok ()
  | _ => .ok ()

/-- The URL of a text, white space and control characters at its ends aside. -/
def read (s : String) : Except UrlError Url := do
  let cs := dropBothWhile (fun c => c.toNat ≤ 0x20) s.toList
  let cs := cs.filter fun c => !(['\t', '\n', '\r'].contains c)
  match readScheme cs with
  | none => .error .noScheme
  | some (scheme, rest) =>
    if scheme == "file" then do
      checkFile rest
      pure ⟨scheme, ""⟩
    else
      match specialPorts.lookup scheme with
      | some port => do
        let text ← readAuthority (some port) (rest.dropWhile fun c => c == '/' || c == '\\')
        pure ⟨scheme, scheme ++ "://" ++ text⟩
      | none =>
        match rest with
        | '/' :: '/' :: rest => do
          let _ ← readAuthority none rest
          pure ⟨scheme, ""⟩
        | _ => pure ⟨scheme, ""⟩

/-- The text with the scheme `https` in front unless it has one. -/
def withScheme (s : String) : String :=
  if hasScheme s.toList then s else "https://" ++ s
where
  hasScheme : List Char → Bool
    | ':' :: '/' :: '/' :: _ => true
    | _ :: rest => hasScheme rest
    | [] => false

/-- Where a listener is reached; a missing scheme means `https`. Hosts are read as far as `asciiName`
goes. With fullwidth letters, soft hyphens, capitals outside Latin, Greek and Cyrillic, or a label
of invalid Punycode the answer is not the one that the rules for international names give. -/
def listenerUrl? (s : String) : Option String :=
  let s := trim s
  if s == "" then none
  else
    match read (withScheme s) with
    | .ok url => if url.scheme == "http" || url.scheme == "https" then some (trimEndMark '/' url.text) else none
    | .error _ => none

end Url

end CimConsole
