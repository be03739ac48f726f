/-
This file models the commands of `lemma/mux.go`: how `BeginMux` finds a command in
the payload, and what each command says to the client.

A command says its messages one by one, each with `LowGetOne(CMD_MID_MUX)` and then
one `LowPutOne`. So a command is a list of messages and what comes after them: it
returns, it panics, or it is `PutTCommand` and goes on with its loop, which
`Session` models. What a command reads from the host's files is the outcome of
opening the file, which the host gives.
-/

import Frobio.Coms.Quint
import Frobio.Lib.SlashPath

namespace Frobio.Mux

open Coms SlashPath

/-! ### The host -/

/-- What the host's settings and the Go library make of a text. -/
structure Host where
  /-- The flag `fs`. -/
  fs : Text
  /-- `%q`. -/
  quote : Text → Text
  /-- `strings.ToLower` of a text that is not all ASCII. -/
  toLowerRunes : Text → Text

/-- How a file of the host that was opened comes to its end. -/
inductive FileEnd
  | eof
  /-- `ReadLine` finds a line longer than its buffer. -/
  | isPrefix
  | failed (err : Text)
  deriving DecidableEq

/-- What the host answers. -/
inductive Outcome
  | done
  | failed (err : Text)
  /-- An opened file gives these lines, or blocks, and then ends. -/
  | opened (reads : List Text) (ending : FileEnd)
  deriving DecidableEq

/-! ### Finding the command -/

/-- The number of bytes of the white space a text begins with, in UTF-8; zero if it begins with
something else. The white space is that of `unicode.IsSpace`. -/
def spaceWidth : Text → Nat
  | 0xC2 :: b :: _ => if b = 0x85 ∨ b = 0xA0 then 2 else 0
  | 0xE1 :: 0x9A :: 0x80 :: _ => 3
  | 0xE2 :: 0x80 :: b :: _ =>
    if (0x80 ≤ b ∧ b ≤ 0x8A) ∨ b = 0xA8 ∨ b = 0xA9 ∨ b = 0xAF then 3 else 0
  | 0xE2 :: 0x81 :: 0x9F :: _ => 3
  | 0xE3 :: 0x80 :: 0x80 :: _ => 3
  | b :: _ => if b = 32 ∨ (9 ≤ b ∧ b ≤ 13) then 1 else 0
  | [] => 0

/-- `strings.Fields`, with the bytes of the white space still to be skipped and the word begun. -/
def fieldsFrom (skip : Nat) (word : Text) : Text → List Text
  | [] => if word = [] then [] else [word]
  | b :: rest =>
    if 0 < skip then fieldsFrom (skip - 1) word rest
    else if spaceWidth (b :: rest) = 0 then fieldsFrom 0 (word ++ [b]) rest
    else
      let later := fieldsFrom (spaceWidth (b :: rest) - 1) [] rest
      if word = [] then later else word :: later

def fields (text : Text) : List Text := fieldsFrom 0 [] text

/-- `strings.ToLower`. -/
def toLower (host : Host) (text : Text) : Text :=
  if text.all (· < 0x80) then text.map fun b => if 65 ≤ b ∧ b ≤ 90 then b + 32 else b
  else host.toLowerRunes text

/-- The words of the payload, less the comments in front: words that begin with a parenthesis. -/
def argvOf (pay : Text) : List Text := (fields pay).dropWhile fun word => word.head? == some 40

/-- The functions in the map `CommandFuncs`. -/
inductive CommandFunc
  | help
  | echo
  | vecho
  | gett
  | getb
  | putt
  deriving DecidableEq

def commandFuncs : List (Text × CommandFunc) :=
  [(ascii "echo", .echo), (ascii "getb", .getb), (ascii "gett", .gett), (ascii "help", .help),
    (ascii "putt", .putt), (ascii "vecho", .vecho)]

/-- The command the payload of a BEGIN names. -/
def commandOf (host : Host) (pay : Text) : Option CommandFunc :=
  (argvOf pay).head?.bind fun name => commandFuncs.lookup (toLower host name)

/-! ### What the commands say -/

/-- What a command does after its messages. -/
inductive Ending
  | ret (verdict : Text)
  | panics (text : Text)
  /-- `PutTCommand` waits for the answer to its `CocoOpen`. -/
  | putT (src dest : Text)
  deriving DecidableEq

structure Script where
  messages : List Text
  ending : Ending
  deriving DecidableEq

/-- `WriteLine`. -/
def writeLine (line : Text) : Text := ascii "1" ++ line

/-- `WriteBytes`. -/
def writeBytes (buf : Text) : Text := ascii "4" ++ buf

/-- `CocoCreate`. -/
def cocoCreate (filename : Text) : Text := ascii "a" ++ filename

/-- `CocoOpen`. -/
def cocoOpen (filename : Text) : Text := ascii "b" ++ filename

/-- `CocoClose`. -/
def cocoClose : Text := ascii "c"

/-- A command that panics before it says anything. -/
def panicsAtOnce (text : Text) : Script := ⟨[], .panics text⟩

def helpCommand : Script := ⟨commandFuncs.map fun entry => writeLine entry.1, .ret (ascii "+ok")⟩

def echoCommand (argv : List Text) : Script :=
  ⟨[writeLine ([32].intercalate argv.tail ++ [10])], .ret (ascii "+ok")⟩

def verticalEchoCommand (argv : List Text) : Script :=
  ⟨argv.tail.map fun a => writeLine (a ++ [10]), .ret (ascii "+ok")⟩

def noFilesystem : Text := ascii "No filesystem on remote server (use --fs=<topdir>)"

/-- The source and the destination of `gett` and `getb`. -/
def getPaths : List Text → Option (Text × Text)
  | [_, first] => some (clean first, base (clean first))
  | [_, first, second] => some (clean first, clean second)
  | _ => none

/-- The source and the destination of `putt`. -/
def putPaths : List Text → Option (Text × Text)
  | [_, first] => some (base (clean first), clean first)
  | [_, first, second] => some (clean first, clean second)
  | _ => none

def getTCommand (host : Host) (argv : List Text) (outcome : Outcome) : Script :=
  if host.fs = [] then panicsAtOnce noFilesystem
  else
    match getPaths argv with
    | none => panicsAtOnce (ascii "Usage:  gett remote_src local_dest")
    | some (src, dest) =>
      match outcome with
      | .failed err =>
        panicsAtOnce (ascii "remote cannot Open " ++ host.quote src ++ ascii ": " ++ err)
      | .done => ⟨[cocoCreate dest, cocoClose], .ret (ascii "+ok")⟩
      | .opened reads ending =>
        let lines := reads.map fun line => writeLine (line ++ [13])
        match ending with
        | .eof => ⟨cocoCreate dest :: (lines ++ [cocoClose]), .ret (ascii "+ok")⟩
        | .isPrefix =>
          ⟨cocoCreate dest :: lines,
            .panics (ascii "Error reading long line in " ++ host.quote src)⟩
        | .failed err =>
          ⟨cocoCreate dest :: lines,
            .panics (ascii "Error reading " ++ host.quote src ++ ascii ": " ++ err)⟩

def getBCommand (host : Host) (argv : List Text) (outcome : Outcome) : Script :=
  if host.fs = [] then panicsAtOnce noFilesystem
  else
    match getPaths argv with
    | none => panicsAtOnce (ascii "Usage:  getb remote_src local_dest")
    | some (src, dest) =>
      match outcome with
      | .failed err =>
        panicsAtOnce (ascii "remote cannot Open " ++ host.quote src ++ ascii ": " ++ err)
      | .done => ⟨[cocoCreate dest, cocoClose], .ret (ascii "+ok")⟩
      | .opened reads ending =>
        let blocks := reads.map writeBytes
        match ending with
        | .failed err =>
          -- an error here is the verdict, not a panic, and the file is not closed
          ⟨cocoCreate dest :: blocks,
            .ret (ascii "- getb: Error reading " ++ host.quote src ++ ascii ": " ++ err)⟩
        | _ => ⟨cocoCreate dest :: (blocks ++ [cocoClose]), .ret (ascii "+ok")⟩

/-- `PutTCommand`, up to its `CocoOpen`. -/
def putTCommand (host : Host) (argv : List Text) (outcome : Outcome) : Script :=
  if host.fs = [] then panicsAtOnce noFilesystem
  else
    match putPaths argv with
    | none => panicsAtOnce (ascii "Usage:  putt local_src remote_dest")
    | some (src, dest) =>
      match outcome with
      | .failed err =>
        panicsAtOnce (ascii "remote cannot create " ++ host.quote dest ++ ascii ": " ++ err)
      | _ => ⟨[cocoOpen src], .putT src dest⟩

def runCommand (host : Host) (fn : CommandFunc) (argv : List Text) (outcome : Outcome) : Script :=
  match fn with
  | .help => helpCommand
  | .echo => echoCommand argv
  | .vecho => verticalEchoCommand argv
  | .gett => getTCommand host argv outcome
  | .getb => getBCommand host argv outcome
  | .putt => putTCommand host argv outcome

end Frobio.Mux
