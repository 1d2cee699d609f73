import KComms.Lib.ElixirString

/-!
# `URI.parse` of Elixir's standard library

The parts of a text that the patterns of `URI.parse` name, whether the text is a URI or not.  No part is looked for behind
the first `#`, and the user information is what stands in front of the last `@` of the authority.
-/

namespace ElixirUri

structure Uri where
  scheme : Option String
  userinfo : Option String
  host : Option String
  port : Option Nat
  path : Option String
  query : Option String
  fragment : Option String
  deriving DecidableEq, Repr

/-- Empty parts count as absent. -/
def nillify (part : List Char) : Option String := if part = [] then none else some (String.ofList part)

def isSchemeCharacter (c : Char) : Bool := c.isAlphanum || c == '+' || c == '-' || c == '.'

/-- `(([a-z][a-z0-9\+\-\.]*):)?` without regard to case. -/
def splitScheme (text : List Char) : Option (List Char) × List Char :=
  let scheme := text.takeWhile isSchemeCharacter
  match scheme, text.drop scheme.length with
  | first :: _, ':' :: rest => if first.isAlpha then (some scheme, rest) else (none, text)
  | _, _ => (none, text)

/-- `(//([^/?#]*))?` -/
def splitAuthority (text : List Char) : Option (List Char) × List Char :=
  let isInside (c : Char) : Bool := c != '/' && c != '?' && c != '#'
  match text with
  | '/' :: '/' :: rest => (some (rest.takeWhile isInside), rest.dropWhile isInside)
  | _ => (none, text)

/-- `(\?([^#]*))?` -/
def splitQuery (text : List Char) : Option (List Char) × List Char :=
  match text with
  | '?' :: rest => (some (rest.takeWhile (· != '#')), rest.dropWhile (· != '#'))
  | _ => (none, text)

/-- `(#(.*))?` -/
def splitFragment (text : List Char) : Option (List Char) :=
  match text with
  | '#' :: rest => some rest
  | _ => none

/-- What stands before and behind the last `@`. -/
def splitLastAt : List Char → Option (List Char × List Char)
  | [] => none
  | c :: text =>
    match splitLastAt text with
    | some (before, after) => some (c :: before, after)
    | none => if c = '@' then some ([], text) else none

/-- `(^(.*)@)?`, where a dot stands for no line feed. -/
def splitUserinfo (authority : List Char) : List Char × List Char :=
  let line := authority.takeWhile (· != '\n')
  match splitLastAt line with
  | some (userinfo, rest) => (userinfo, rest ++ authority.drop line.length)
  | none => ([], authority)

/-- `(\[[a-zA-Z0-9:.]*\]|[^:]*)` -/
def splitHost (text : List Char) : List Char × List Char :=
  let plain := (text.takeWhile (· != ':'), text.dropWhile (· != ':'))
  match text with
  | '[' :: rest =>
    let address := rest.takeWhile fun c => c.isAlphanum || c == ':' || c == '.'
    match rest.drop address.length with
    | ']' :: rest => ('[' :: (address ++ [']']), rest)
    | _ => plain
  | _ => plain

/-- `(:(\d*))?` -/
def portDigits (text : List Char) : List Char :=
  match text with
  | ':' :: rest => rest.takeWhile Char.isDigit
  | _ => []

def defaultPort (scheme : String) : Option Nat :=
  match scheme with
  | "ftp" => some 21
  | "sftp" => some 22
  | "tftp" => some 69
  | "http" => some 80
  | "https" => some 443
  | "ldap" => some 389
  | "ws" => some 80
  | "wss" => some 443
  | _ => none

/-- `String.trim_leading("[")` and `String.trim_trailing("]")` -/
def trimBrackets (host : List Char) : List Char :=
  ((host.dropWhile (· == '[')).reverse.dropWhile (· == ']')).reverse

/-- User information, host and port of an authority. -/
def authorityParts (authority : Option (List Char)) : Option String × Option String × Option Nat :=
  match authority with
  | none => (none, none, none)
  | some [] => (none, some "", none)
  | some authority =>
    let (userinfo, rest) := splitUserinfo authority
    let (host, rest) := splitHost rest
    let digits := portDigits rest
    (nillify userinfo, if host = [] then none else some (String.ofList (trimBrackets host)),
      if digits = [] then none else some (digits.foldl (fun n c => 10 * n + (c.toNat - 48)) 0))

def parse (text : String) : Uri :=
  let (scheme, rest) := splitScheme text.toList
  let (authority, rest) := splitAuthority rest
  let path := rest.takeWhile fun c => c != '?' && c != '#'
  let (query, rest) := splitQuery (rest.drop path.length)
  let scheme := scheme.map fun scheme => String.ofList (scheme.map Char.toLower)
  let (userinfo, host, port) := authorityParts authority
  { scheme := scheme
    userinfo := userinfo
    host := host
    port := port.or (scheme.bind defaultPort)
    path := nillify path
    query := query.map String.ofList
    fragment := (splitFragment rest).map String.ofList }

end ElixirUri
