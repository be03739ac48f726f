/-
This file models `lemma/lemman.go`, which carries out the file requests of the
clients on a directory of the host, and `ExtractName` of `lemma/level0.go`.

The package's variables are the record `Globals`, with the host's disk beside them.
A request gives the globals after it, what is sent back, or nothing if the request
panics, and the calls it made to the host. What `os.Stat` says about a file beyond
its kind and its size comes with the request. The texts of the errors go to the log
only; what the client gets is the number `LemmaError` gives them.
-/

import Frobio.Coms.Quint
import Frobio.Lib.Disk

namespace Frobio.LemMan

open Coms SlashPath Disk Positional

/-! ### The package's variables -/

/-- The Go type `LMPath`, less `DirEntries`, which nothing reads. -/
structure LMPath where
  pathName : Text
  mode : UInt8
  isDir : Bool
  offset : Nat
  size : Nat
  dirData : Text
  /-- The file that is open, and whether it is open for writing. -/
  osFile : Option (FileId × Bool)

structure Globals where
  lmPaths : Nat → Option LMPath
  /-- The field `PathName` of the entries of `Inodes`. -/
  inodes : Nat → Option Text
  nextInodeVar : Nat
  prevLemmaError : UInt8
  disk : Disk

def lemmaErrorMin : UInt8 := 80

def lemmaErrorMax : UInt8 := 99

def E_BPNum : UInt8 := 0xC9

def E_EOF : UInt8 := 0xD3

/-- The waiter as it starts. -/
def Globals.start (disk : Disk) : Globals where
  lmPaths := fun _ => none
  inodes := fun _ => none
  nextInodeVar := 1024
  prevLemmaError := lemmaErrorMin - 1
  disk := disk

def nextInode (nextInodeVar : Nat) : Nat :=
  if 2048 ≤ nextInodeVar + 1 then 1024 else nextInodeVar + 1

def lemmaError (prevLemmaError : UInt8) : UInt8 :=
  if lemmaErrorMax < prevLemmaError + 1 then lemmaErrorMin else prevLemmaError + 1

/-! ### What the host answers -/

/-- The process the waiter is: the flag `lemman_fs` and the current directory. -/
structure Host where
  lemmanFs : Text
  current : Place

structure Date where
  year : Int
  month : Nat
  day : Nat
  hour : Nat
  minute : Nat

/-- What `os.Stat` says about a file beyond its kind, and its size if it is no directory. -/
structure FileInfo where
  modTime : Date
  ctime : Date
  nlink : Nat
  dirSize : Nat

/-- What a request does to the host, and the number of the error it logs. -/
inductive Effect
  | stat (path : Text)
  | readDir (path : Text)
  | create (path : Text)
  | openFile (path : Text)
  | remove (path : Text)
  | lemmaError (errnum : UInt8)
  deriving DecidableEq

def Effect.path : Effect → Option Text
  | stat path | readDir path | create path | openFile path | remove path => some path
  | lemmaError _ => none

/-! ### Registers -/

structure LMRegs where
  rcc : UInt8
  ra : UInt8
  rb : UInt8
  rdp : UInt8
  rx : Nat
  ry : Nat
  ru : Nat
  rpc : Nat
  deriving DecidableEq

def newLMRegs (input : Text) : LMRegs where
  rcc := input.getD 0 0
  ra := input.getD 1 0
  rb := input.getD 2 0
  rdp := input.getD 3 0
  rx := hiLo (input.getD 4 0) (input.getD 5 0)
  ry := hiLo (input.getD 6 0) (input.getD 7 0)
  ru := hiLo (input.getD 8 0) (input.getD 9 0)
  rpc := hiLo (input.getD 10 0) (input.getD 11 0)

def LMRegs.writeBytes (r : LMRegs) : Text :=
  [r.rcc, r.ra, r.rb, r.rdp, hi r.rx, lo r.rx, hi r.ry, lo r.ry, hi r.ru, lo r.ru, hi r.rpc,
    lo r.rpc]

/-- What is sent back. -/
structure Reply where
  status : UInt8
  regs : LMRegs
  payload : Text
  deriving DecidableEq

def Reply.bytes (reply : Reply) : Text :=
  reply.status :: (reply.regs.writeBytes ++
    (hi reply.payload.length :: lo reply.payload.length :: reply.payload))

/-- The globals after a request, what is sent back unless it panics, and what it did. -/
structure Outcome where
  globals : Globals
  reply : Option Reply
  effects : List Effect

def answer (g : Globals) (status : UInt8) (regs : LMRegs) (payload : Text)
    (effects : List Effect) : Outcome :=
  ⟨g, some ⟨status, regs, payload⟩, effects⟩

def panicked (g : Globals) (effects : List Effect) : Outcome := ⟨g, none, effects⟩

/-- Answer with a `LemmaError`. -/
def refuse (g : Globals) (regs : LMRegs) (effects : List Effect) : Outcome :=
  let errnum := lemmaError g.prevLemmaError
  answer { g with prevLemmaError := errnum } errnum regs [] (effects ++ [.lemmaError errnum])

/-! ### GetStt -/

def timeVector (t : Date) : Text :=
  [UInt8.ofInt (t.year - 1900), UInt8.ofNat t.month, UInt8.ofNat t.day, UInt8.ofNat t.hour,
    UInt8.ofNat t.minute]

def attributes : Node → UInt8
  | .dir => 0o277
  | .file => 0o077

/-- The sixteen bytes of a file descriptor that are filled in. -/
def fileDescriptor (info : FileInfo) (node : Node) (size : Nat) : Text :=
  [attributes node, 0, 0] ++ timeVector info.modTime ++ [UInt8.ofNat (min info.nlink 255)] ++
    [UInt8.ofNat (size / 2 ^ 24), UInt8.ofNat (size / 2 ^ 16), UInt8.ofNat (size / 2 ^ 8),
      UInt8.ofNat size] ++
    (timeVector info.ctime).take 3

/-- `SS.FDInf`. -/
def fdInf (host : Host) (g : Globals) (info : FileInfo) (regs : LMRegs) : Outcome :=
  let ino := (regs.ry / 256 * 256) * 256 + regs.ru
  let n := regs.ry % 256
  match if 1024 ≤ ino ∧ ino < 2048 then g.inodes (ino - 1024) else none with
  | none => panicked g []
  | some pathName =>
    let jname := join [host.lemmanFs, pathName]
    match g.disk.find host.current jname with
    | none => panicked g [.stat jname]
    | some place =>
      match g.disk.nodeAt place with
      | none => panicked g [.stat jname]
      | some node =>
        if n < 13 then panicked g [.stat jname]
        else
          let size :=
            match node with
            | .dir => info.dirSize
            | .file => (g.disk.content (g.disk.fileAt place)).length
          answer g 0 regs
            ((fileDescriptor info node size ++ List.replicate (n - 16) 0).take n) [.stat jname]

def lmGetStt (host : Host) (g : Globals) (pd : Nat) (info : FileInfo) (regs : LMRegs) : Outcome :=
  match g.lmPaths pd with
  | none => answer g E_BPNum regs [] []
  | some _ => if regs.rb = 0x20 then fdInf host g info regs else answer g 0 regs [] []

/-! ### Delete and Seek -/

/-- The path ends in the word `.`, which `os.Remove` refuses to remove a directory by. -/
def endsInDot (path : Text) : Bool :=
  ((path.splitOn slash).filter (· ≠ [])).getLast? == some dot

def osRemove (host : Host) (disk : Disk) (name : Text) : Option Disk :=
  if endsInDot name then none else (disk.find host.current name).bind disk.remove

def lmDelete (host : Host) (g : Globals) (regs : LMRegs) (name : Text) : Outcome :=
  match osRemove host g.disk name with
  | none => refuse g regs [.remove name]
  | some disk => answer { g with disk } 0 regs [] [.remove name]

def Globals.setPath (g : Globals) (pd : Nat) (p : Option LMPath) : Globals :=
  { g with lmPaths := Function.update g.lmPaths pd p }

def lmSeek (g : Globals) (pd : Nat) (regs : LMRegs) : Outcome :=
  match g.lmPaths pd with
  | none => answer g E_BPNum regs [] []
  | some p =>
    let want := regs.rx * 2 ^ 16 + regs.ru
    answer (g.setPath pd (some { p with offset := want })) 0 regs [] []

/-! ### Write and Read -/

def lmWrite (g : Globals) (pd : Nat) (regs : LMRegs) (payIn : Text) : Outcome :=
  match g.lmPaths pd with
  | none => answer g E_BPNum regs [] []
  | some p =>
    if p.mode &&& 0x02 ≠ 0x02 then refuse g regs []
    else if p.mode &&& 0x80 ≠ 0 then refuse g regs []
    else if p.isDir then refuse g regs []
    else
      match p.osFile with
      | none => panicked g []
      | some (_, false) => refuse g regs []
      | some (file, true) =>
        answer
          ({ g with disk := g.disk.write file p.offset payIn }.setPath pd
            (some { p with offset := p.offset + payIn.length })) 0 regs [] []

/-- Chop after the first newline or carriage return, unless it is the last byte. -/
def chopLine (buf : Text) : Text :=
  let i := buf.findIdx fun e => e = 10 ∨ e = 13
  if i + 1 < buf.length then buf.take i ++ [13] else buf

/-- The bytes at the path's offset, unless it is a file that does not give them all. -/
def readPath (g : Globals) (p : LMPath) (n : Nat) : Option Text :=
  if p.isDir then some (readAt p.offset n p.dirData)
  else
    match p.osFile with
    | none => none
    | some (file, _) =>
      if (readAt p.offset n (g.disk.content file)).length = n then
        some (readAt p.offset n (g.disk.content file))
      else none

def lmRead (g : Globals) (pd : Nat) (regs : LMRegs) (linely : Bool) : Outcome :=
  match g.lmPaths pd with
  | none => answer g E_BPNum regs [] []
  | some p =>
    if p.size ≤ p.offset then answer g E_EOF regs [] []
    else
      match readPath g p (min regs.ry (p.size - p.offset)) with
      | none => refuse g regs []
      | some buf =>
        let buf := if linely then chopLine buf else buf
        answer (g.setPath pd (some { p with offset := p.offset + buf.length })) 0 regs buf []

def lmClose (g : Globals) (pd : Nat) (regs : LMRegs) : Outcome :=
  match g.lmPaths pd with
  | none => answer g E_BPNum regs [] []
  | some _ => answer (g.setPath pd none) 0 regs [] []

/-! ### Create and Open -/

/-- The words of a name that are kept, unless one of them is bad. -/
def keepWords : List Text → Option (List Text)
  | [] => some []
  | w :: rest =>
    if w = dotdot then none
    else if w = [] ∨ w = dot then keepWords rest
    else if w.head? = some 46 then none
    else (keepWords rest).map (w :: ·)

def trimSlash : Text → Text
  | [] => []
  | first :: rest => if first = slash then rest else first :: rest

/-- The variable `clean`. -/
def cleanName (name : Text) : Text := trimSlash (clean name)

/-- The variable `jname`, unless the name has a bad word. -/
def jname (host : Host) (name : Text) : Option Text :=
  (keepWords ((cleanName name).splitOn slash)).map fun words =>
    host.lemmanFs ++ slash :: join words

/-- What the directory data begins with: the parent and the directory itself. -/
def dirHead : Text :=
  [46, 46 ||| 0x80] ++ List.replicate 29 0 ++ [42] ++ ([46 ||| 0x80] ++ List.replicate 30 0 ++ [43])

/-- An entry of the directory data. -/
def dirChunk (s : Text) (ino : Nat) : Text :=
  (s.dropLast ++ (s.getLast?.map (· ||| 0x80)).toList) ++ List.replicate (29 - s.length) 0 ++
    [UInt8.ofNat (ino / 2 ^ 16), UInt8.ofNat (ino / 2 ^ 8), UInt8.ofNat ino]

/-- The inodes and the directory data as an entry is added. -/
structure Listing where
  inodes : Nat → Option Text
  nextInodeVar : Nat
  buf : Text

def listEntry (clean : Text) (listing : Listing) (s : Text) : Listing :=
  if 29 < s.length then listing
  else
    let ino := nextInode listing.nextInodeVar
    { inodes := Function.update listing.inodes (ino - 1024) (some (join [clean, s]))
      nextInodeVar := ino
      buf := listing.buf ++ dirChunk s ino }

def listDir (g : Globals) (clean : Text) (entries : List Text) : Listing :=
  entries.foldl (listEntry clean) ⟨g.inodes, g.nextInodeVar, dirHead⟩

/-- Keep the path, and move X past the name. -/
def opened (g : Globals) (pd : Nat) (p : LMPath) (regs : LMRegs) (name : Text)
    (effects : List Effect) : Outcome :=
  answer (g.setPath pd (some p)) 0 { regs with rx := regs.rx + name.length } [] effects

def createPath (host : Host) (g : Globals) (pd : Nat) (regs : LMRegs) (mode : UInt8)
    (name jname : Text) : Outcome :=
  if mode ≠ 2 then refuse g regs []
  else
    match (g.disk.find host.current jname).bind g.disk.create with
    | none => refuse g regs [.create jname]
    | some (file, disk) =>
      opened { g with disk } pd ⟨cleanName name, mode, false, 0, 0, [], some (file, true)⟩ regs name
        [.create jname]

def openPath (host : Host) (g : Globals) (pd : Nat) (regs : LMRegs) (mode : UInt8)
    (name jname : Text) : Outcome :=
  match g.disk.find host.current jname with
  | none => refuse g regs [.stat jname]
  | some place =>
    match g.disk.nodeAt place with
    | none => refuse g regs [.stat jname]
    | some .dir =>
      match g.disk.readDir place with
      | none => refuse g regs [.stat jname, .readDir jname]
      | some entries =>
        let listing := listDir g (cleanName name) entries
        opened { g with inodes := listing.inodes, nextInodeVar := listing.nextInodeVar } pd
          ⟨cleanName name, mode, true, 0, listing.buf.length, listing.buf, none⟩ regs name
          [.stat jname, .readDir jname]
    | some .file =>
      match g.disk.openFile place with
      | none => refuse g regs [.stat jname, .openFile jname]
      | some file =>
        opened g pd
          ⟨cleanName name, mode, false, 0, (g.disk.content file).length, [], some (file, false)⟩
          regs name [.stat jname, .openFile jname]

def lmOpen (host : Host) (g : Globals) (pd : Nat) (regs : LMRegs) (mode : UInt8) (name : Text)
    (create : Bool) : Outcome :=
  match jname host name with
  | none => refuse g regs []
  | some jname =>
    if create then createPath host g pd regs mode name jname
    else openPath host g pd regs mode name jname

/-! ### Requests -/

/-- `ExtractName`. A byte no name may have, or the end of the bytes, is a panic. -/
def extractName : Text → Option Text
  | [] => none
  | b :: rest =>
    let ch := b &&& 127
    if ch = 0 ∨ ch = 10 ∨ ch = 13 ∨ ch = 32 then some []
    else if ch < 45 ∨ 122 < ch then none
    else if 128 ≤ b then some [ch]
    else (extractName rest).map (ch :: ·)

def headerLen : Nat := 15

def opOf (input : Text) : UInt8 := input.getD 0 0

def regsOf (input : Text) : LMRegs := newLMRegs (input.drop 1)

def paylen (input : Text) : Nat := hiLo (input.getD 13 0) (input.getD 14 0)

/-- The name in a request that has one. -/
def nameOf (input : Text) : Option Text :=
  if headerLen + paylen input ≤ input.length then
    extractName ((input.drop headerLen).take (paylen input))
  else none

/-- A client's request, with what the host would say about the file it asks about. -/
structure Request where
  input : Text
  info : FileInfo

/-- Go on with the name in the request. -/
def withName (g : Globals) (input : Text) (handle : Text → Outcome) : Outcome :=
  match nameOf input with
  | none => panicked g []
  | some name => handle name

def doLemMan (host : Host) (g : Globals) (request : Request) (pd : Nat) : Outcome :=
  let input := request.input
  let regs := regsOf input
  if input.length < headerLen then panicked g []
  else
    match (opOf input).toNat with
    | 1 => withName g input fun name => lmOpen host g pd regs regs.ra name true
    | 2 => withName g input fun name => lmOpen host g pd regs regs.ra name false
    | 3 => withName g input fun _ => refuse g regs []
    | 4 => withName g input fun _ => answer g 0 regs [] []
    | 5 => withName g input fun name => lmDelete host g regs name
    | 6 => lmSeek g pd regs
    | 7 => lmRead g pd regs false
    | 8 => lmWrite g pd regs (input.drop headerLen)
    | 9 => lmRead g pd regs true
    | 10 => lmWrite g pd regs (input.drop headerLen)
    | 11 => lmGetStt host g pd request.info regs
    | 13 => lmClose g pd regs
    -- the log's table of names ends before 14
    | op => if 14 ≤ op then panicked g [] else refuse g regs []

end Frobio.LemMan
