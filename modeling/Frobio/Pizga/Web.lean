/-
This file models the web server of `lemma/web.go`: `LemmaHandler.ServeHTTP` chooses a
handler by the front of the path, and the handler for `/pizga` is the guard of
`basicAuth` before `http.StripPrefix` and `http.FileServer`.

A request comes with the path of its URL as it was decoded, before any cleaning, and with
the encoded path if the two differ. Its credentials are as the header was parsed.
-/

import Frobio.Pizga.Permissions

namespace Frobio.Pizga

open Coms SlashPath Utf8

structure Request where
  method : Text
  urlPath : Text
  rawPath : Text
  basicAuth : Option (Text × Text)

structure WebFlags where
  table : UpperCase
  sha256 : Text → Text
  webReaderPwFlipped : Text

inductive Answer
  /-- The handler of another front was called. -/
  | handled (front : Text)
  | imATeapot
  | notFound
  | unauthorized
  /-- The file server behind `/pizga` was reached, and has cleaned its path. -/
  | files (path : Text)
  deriving DecidableEq

/-! ### Flip13 -/

def flipRune (rune : Nat) : Nat :=
  if 97 ≤ rune ∧ rune ≤ 122 then 25 - (rune - 97) + 97
  else if 65 ≤ rune ∧ rune ≤ 90 then 25 - (rune - 65) + 65
  else rune

def flip13 (text : Text) : Text := (runes text).flatMap fun rune => encodeRune (flipRune rune.1)

/-! ### The guard -/

def PublicExceptions : List Text := [ascii "/", ascii "/pizga", ascii "/pizga/Homes"]

variable (o : WebFlags)

/-- Whether a path is served to anyone. -/
def servesPublic (urlPath : Text) : Bool :=
  let p := clean urlPath
  let words := p.splitOn slash
  let isPublic := words.any (toUpper o.table · == PUBLIC) || PublicExceptions.contains p
  let isPrivate := words.any (toUpper o.table · == PRIVATE)
  isPublic && !isPrivate

def usernameHash (username : Text) : Text := o.sha256 (toUpper o.table (trimSpace username))

def passwordHash (password : Text) : Text := o.sha256 (toUpper o.table (trimSpace password))

def webReaderPwHash : Text := o.sha256 (flip13 (toUpper o.table o.webReaderPwFlipped))

/-- The credentials of the owner. -/
def fullMatch (r : Request) : Bool :=
  match r.basicAuth with
  | none => false
  | some (username, password) =>
    usernameHash o username == o.sha256 (ascii "PIZGA") &&
      passwordHash o password == o.sha256 (ascii "COCO")

/-- The password of the readers. -/
def readerMatch (r : Request) : Bool :=
  match r.basicAuth with
  | none => false
  | some (_, password) => passwordHash o password == webReaderPwHash o

/-- What `basicAuth` lets through. -/
def letsThrough (r : Request) (urlPath : Text) : Bool :=
  let meth := toUpper o.table r.method
  servesPublic o urlPath || fullMatch o r ||
    readerMatch o r && (meth == ascii "GET" || meth == ascii "HEAD")

/-! ### Handlers -/

/-- `http.StripPrefix` before `http.FileServer`, which adds a slash and cleans. -/
def stripAndServe (pre : Text) (urlPath rawPath : Text) : Answer :=
  if pre <+: urlPath ∧ (rawPath = [] ∨ pre <+: rawPath) then
    let upath := urlPath.drop pre.length
    .files (clean (if rooted upath then upath else slash :: upath))
  else .notFound

def pizga : Text := ascii "/pizga"

def otherFronts : List Text :=
  [ascii "/", ascii "/web-static", ascii "/inputs", ascii "/releases", ascii "/well-known",
    ascii "/temp"]

def isFrontByte (c : UInt8) : Bool := c == 45 || 97 ≤ c && c ≤ 122

/-- `MatchPathFront`. -/
def pathFront : Text → Option Text
  | [] => none
  | first :: rest => if first = slash then some (slash :: rest.takeWhile isFrontByte) else none

/-- `MatchPathTilde`. -/
def isTilde (p : Text) : Bool :=
  p.take 2 == ascii "/~" && p.drop 2 != [] &&
    (p.drop 2).all fun c => isFrontByte c || 48 ≤ c && c ≤ 57

def wellKnown : Text := ascii "/.well-known"

/-- Rewrite the path, and the path of the URL with it. -/
def rewriteWhere (applies : Text → Bool) (rewritten : Text → Text) (paths : Text × Text) :
    Text × Text :=
  if applies paths.1 then (rewritten paths.1, rewritten paths.1) else paths

/-- The path after all rewriting, and the path of the URL. -/
def rewrite (urlPath : Text) : Text × Text :=
  let paths := (clean urlPath, urlPath)
  -- remove the forbidden dot from this one prefix
  let paths := rewriteWhere (wellKnown.isPrefixOf ·)
    (fun p => ascii "/well-known" ++ p.drop wellKnown.length) paths
  let paths := rewriteWhere (· == ascii "/favicon.ico")
    (fun _ => ascii "/web-static/favicon.ico") paths
  -- the name is of small letters, digits and hyphens, so `strings.ToLower` does nothing to it
  rewriteWhere isTilde (fun p => ascii "/web-static/links/" ++ p.drop 2) paths

/-- `LemmaHandler.ServeHTTP`. -/
def serveHTTP (r : Request) : Answer :=
  let paths := rewrite r.urlPath
  match pathFront paths.1 with
  | none => .imATeapot
  | some front =>
    if front = pizga then
      if letsThrough o r paths.2 then stripAndServe pizga paths.2 r.rawPath else .unauthorized
    else if otherFronts.contains front then .handled front
    else .imATeapot

end Frobio.Pizga
