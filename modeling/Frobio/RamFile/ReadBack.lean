/-
This file models the daemon of `fuse-daemons/fuse-ramfile.c`, which keeps files in memory, and
shows which reads give back what was written.

What the daemon holds of a file is memory from its `contents` on, and what lies behind the payload
of the request is memory as well. The words of the source are numbers here, reduced where the
source adds them up. A reply that is longer than the payload of `Reply` has been written behind it.
There is no result where the daemon would go beyond its paths, where `ReAlloc` has no block that is
large enough, and where an assertion fails.
-/

import Mathlib.Logic.Function.Basic
import Frobio.Froblib.Buf
import Frobio.Lib.Delimited
import Frobio.Lib.Memory

namespace Frobio.RamFile

open Memory Delimited
open Froblib (char)

/-! ### The daemon -/

def PAYSIZ : Nat := 2048

def MAX_PATHS : Nat := 32

def MAX_FILES : Nat := 50

/-- The capacity of the largest block that `ReAlloc` gives. Up to 32767 bytes it panics, and from
there on the block is too small. -/
def MAX_BLOCK : Nat := 16384

def E_BMODE : Nat := 0xcb

def E_UNKSVC : Nat := 0xd0

def E_EOF : Nat := 0xd3

def E_PNNF : Nat := 0xd8

def E_FULL : Nat := 0xf8

inductive Operation
  | OP_CREATE
  | OP_OPEN
  | OP_CLOSE
  | OP_READ
  | OP_WRITE
  | OP_READLN
  | OP_WRITLN
  | other

/-- A request as it is sent, with what comes after its header. -/
structure Request where
  operation : Operation
  path_num : Nat
  a_reg : Nat
  size : Nat
  data : List UInt8

structure Reply where
  status : Nat
  size : Nat
  payload : List UInt8
  deriving DecidableEq

structure PathInfo where
  writing : Bool
  offset : Nat
  file : Option Nat

structure FileInfo where
  name : Option (List UInt8)
  contents : Nat → UInt8
  size : Nat

structure Daemon where
  /-- The memory from `Request.payload` on. -/
  payload : Nat → UInt8
  paths : Nat → PathInfo
  files : Nat → FileInfo

/-- A reply without a payload. -/
def Reply.of (status size : Nat) : Reply := ⟨status, size, []⟩

def Daemon.setPath (d : Daemon) (path : Nat) (p : PathInfo) : Daemon :=
  { d with paths := Function.update d.paths path p }

def Daemon.setFile (d : Daemon) (file : Nat) (f : FileInfo) : Daemon :=
  { d with files := Function.update d.files file f }

/-- The letters that `strcasecmp` takes for the same. -/
def fold (c : UInt8) : UInt8 := if 65 ≤ c ∧ c ≤ 90 then c + 32 else c

def FindFile (d : Daemon) (name : List UInt8) : Option Nat :=
  (List.range MAX_FILES).find? fun file =>
    match (d.files file).name with
    | none => false
    | some other => other.map fold = name.map fold

def FindUnusedFile (d : Daemon) : Option Nat :=
  (List.range MAX_FILES).find? fun file => (d.files file).name.isNone

/-- The name ends before the first control character or blank. -/
def RequestedFileName (signed : Bool) (d : Daemon) (size : Nat) : List UInt8 :=
  (load d.payload 0 size).takeWhile fun c => ¬char signed c ≤ 32

/-- The file is truncated, and the path writes to it. -/
def Daemon.truncate (d : Daemon) (path file : Nat) : Daemon :=
  (d.setFile file { d.files file with size := 0 }).setPath path ⟨true, 0, some file⟩

def DoOpenWrite (signed : Bool) (q : Request) (d : Daemon) : Daemon × Nat :=
  let name := RequestedFileName signed d q.size
  match FindFile d name with
  | some file => (d.truncate q.path_num file, 0)
  | none =>
    match FindUnusedFile d with
    | none => (d, E_FULL)
    | some file =>
      ((d.setFile file { d.files file with name := some name }).truncate q.path_num file, 0)

def DoOpenRead (signed : Bool) (q : Request) (d : Daemon) : Daemon × Nat :=
  match FindFile d (RequestedFileName signed d q.size) with
  | none => (d, E_PNNF)
  | some file => (d.setPath q.path_num ⟨false, 0, some file⟩, 0)

def DoOpen (signed : Bool) (q : Request) (d : Daemon) : Option (Daemon × Reply) :=
  let (d, e) :=
    if q.a_reg = 1 then DoOpenRead signed q d
    else if q.a_reg = 2 then DoOpenWrite signed q d
    else (d, E_BMODE)
  -- the path is looked up where the file is there
  if e = 0 ∧ MAX_PATHS ≤ q.path_num then none else some (d, .of e 0)

def DoClose (q : Request) (d : Daemon) : Option (Daemon × Reply) :=
  if MAX_PATHS ≤ q.path_num then none
  else some (d.setPath q.path_num ⟨false, 0, none⟩, .of 0 0)

/-- Where the line ends that begins at `i`, with so many cells left to look at. -/
def lineEnd (memory : Nat → UInt8) : Nat → Nat → Nat
  | 0, i => i
  | left + 1, i => if memory i = 13 then i + 1 else lineEnd memory left (i + 1)

/-- There is no result where the path has no file, which is asserted. -/
def DoRead (linely : Bool) (q : Request) (d : Daemon) : Option (Daemon × Reply) :=
  let p := d.paths q.path_num
  if MAX_PATHS ≤ q.path_num then none
  else match p.file with
  | none => none
  | some file =>
    let f := d.files file
    if p.writing then some (d, .of E_BMODE 0)
    else if p.offset ≥ f.size then some (d, .of E_EOF 0)
    else
      let i :=
        if linely then lineEnd f.contents (f.size - p.offset) p.offset
        else min ((p.offset + q.size) % 65536) f.size
      let n := (i + 65536 - p.offset) % 65536
      some (d.setPath q.path_num { p with offset := i },
        ⟨0, n, load f.contents p.offset n⟩)

def DoWrite (linely : Bool) (q : Request) (d : Daemon) : Option (Daemon × Reply) :=
  let p := d.paths q.path_num
  if MAX_PATHS ≤ q.path_num then none
  else match p.file with
  | none => none
  | some file =>
    let f := d.files file
    if ¬p.writing then some (d, .of E_BMODE 0)
    else
      let n := if linely then lineEnd d.payload q.size 0 else q.size
      if MAX_BLOCK < (f.size + n) % 65536 then none
      else
        some (d.setFile file
          { f with
            contents := store f.contents f.size (load d.payload 0 n)
            size := (f.size + n) % 65536 },
          .of 0 n)

def FixSizeForWritLn (q : Request) (d : Daemon) : Request :=
  { q with size := lineEnd d.payload (min q.size PAYSIZ) 0 }

/-- One round of the loop of `main`. -/
def serve (signed : Bool) (d : Daemon) (q : Request) : Option (Daemon × Reply) :=
  let d := { d with payload := store d.payload 0 (q.data.take PAYSIZ) }
  match q.operation with
  | .OP_CREATE => DoOpen signed q d
  | .OP_OPEN => DoOpen signed q d
  | .OP_CLOSE => DoClose q d
  | .OP_READ => DoRead false q d
  | .OP_READLN => DoRead true q d
  | .OP_WRITE => DoWrite false q d
  | .OP_WRITLN => DoWrite true (FixSizeForWritLn q d) d
  | .other => some (d, .of E_UNKSVC 0)

def serveAll (signed : Bool) : Daemon → List Request → Option (Daemon × List Reply)
  | d, [] => some (d, [])
  | d, q :: later =>
    match serve signed d q with
    | none => none
    | some (d, reply) =>
      match serveAll signed d later with
      | none => none
      | some (d, replies) => some (d, reply :: replies)

/-! ### Writing and reading a file -/

inductive WriteCall
  | write (data : List UInt8)
  | writLn (data : List UInt8)

inductive ReadCall
  | read (size : UInt16)
  | readLn (size : UInt16)

def WriteCall.request (path : Nat) : WriteCall → Request
  | .write data => ⟨.OP_WRITE, path, 0, data.length, data⟩
  | .writLn data => ⟨.OP_WRITLN, path, 0, data.length, data⟩

def ReadCall.request (path : Nat) : ReadCall → Request
  | .read size => ⟨.OP_READ, path, 0, size.toNat, []⟩
  | .readLn size => ⟨.OP_READLN, path, 0, size.toNat, []⟩

/-- The file is opened on a path, or it is closed. -/
def openRequest (mode path : Nat) (name : List UInt8) : Request :=
  ⟨.OP_OPEN, path, mode, name.length, name⟩

def closeRequest (path : Nat) : Request := ⟨.OP_CLOSE, path, 0, 0, []⟩

/-- The bytes that a call says it has written: of a line no more than up to its end, and no more
than the payload holds. -/
def WriteCall.written : WriteCall → List UInt8
  | .write data => data
  | .writLn data => upTo 13 (data.take PAYSIZ)

/-- What is left of the file is read by a call: as many bytes as are asked for and fit the payload,
or a line of them. -/
def ReadCall.wanted (rest : List UInt8) : ReadCall → List UInt8
  | .read size => rest.take (min size.toNat PAYSIZ)
  | .readLn size => upTo 13 (rest.take (min size.toNat PAYSIZ))

/-- The calls give back what is left of the file, and the end of the file at its end. -/
def ReadBack : List UInt8 → List ReadCall → List Reply → Prop
  | _, [], [] => True
  | rest, call :: calls, reply :: replies =>
    (if rest = [] then reply.status = E_EOF ∧ reply.payload = []
      else reply.status = 0 ∧ reply.payload = call.wanted rest) ∧
    ReadBack (rest.drop (call.wanted rest).length) calls replies
  | _, _, _ => False

/-- The data of a plain write fits the payload. -/
def WriteCall.Fits : WriteCall → Prop
  | .write data => data.length ≤ PAYSIZ
  | .writLn data => data.length < 65536

/-- A plain read does not reach beyond the last address of a word, and finds no more than fits the
payload. The next line is no longer than was asked for, and than the payload. -/
def ReadCall.Fits (total : Nat) (rest : List UInt8) : ReadCall → Prop
  | .read size => total - rest.length + size.toNat < 65536 ∧ min size.toNat rest.length ≤ PAYSIZ
  | .readLn size => (upTo 13 rest).length ≤ min size.toNat PAYSIZ

/-- Every call fits that comes before the end of the file. -/
def ReadsFit (total : Nat) : List UInt8 → List ReadCall → Prop
  | _, [] => True
  | rest, call :: calls =>
    (rest = [] ∨ call.Fits total rest) ∧
      ReadsFit total (rest.drop (call.wanted rest).length) calls

/-! ### Lines -/

variable {signed : Bool} {d d' : Daemon} {path file : Nat}

theorem lineEnd_eq (memory : Nat → UInt8) (left i : Nat) :
    lineEnd memory left i = i + (upTo 13 (load memory i left)).length := by
  induction left generalizing i with
  | zero => rfl
  | succ left inductionHypothesis =>
    rw [lineEnd, load_succ, upTo, inductionHypothesis]
    split
    · rfl
    · rw [List.length_cons]
      omega

/-! ### Finding a file -/

theorem findFile_congr (same : ∀ i, (d'.files i).name = (d.files i).name) (name : List UInt8) :
    FindFile d' name = FindFile d name := by
  rw [FindFile, FindFile]
  congr 1
  funext i
  rw [same]

/-- A file that was just named is found, as no other one was. -/
theorem findFile_setFile {name : List UInt8} {f : FileInfo} (absent : FindFile d name = none)
    (unused : FindUnusedFile d = some file) (named : f.name = some name) :
    FindFile (d.setFile file f) name = some file := by
  have inside := List.mem_of_find?_eq_some unused
  have self : (d.setFile file f).files file = f := Function.update_self ..
  rcases found : FindFile (d.setFile file f) name with _ | other
  · have misses := List.find?_eq_none.mp found file inside
    rw [self, named] at misses
    exact absurd (decide_eq_true rfl) misses
  · have matches_ := List.find?_some found
    by_cases here : other = file
    · rw [here]
    · have kept : (d.setFile file f).files other = d.files other := Function.update_of_ne here ..
      rw [kept] at matches_
      have misses := List.find?_eq_none.mp absent other (List.mem_of_find?_eq_some found)
      exact absurd matches_ misses

/-! ### Opening -/

/-- The bytes of a request are in the payload. -/
theorem load_request {data : List UInt8} (short : data.length ≤ PAYSIZ) (d : Daemon) :
    load (store d.payload 0 (data.take PAYSIZ)) 0 data.length = data := by
  rw [List.take_of_length_le short, load_store_self]

/-- The path is open for writing, and the file holds these bytes. -/
structure Writing (d : Daemon) (path file : Nat) (bytes : List UInt8) : Prop where
  known : path < MAX_PATHS
  path : d.paths path = ⟨true, 0, some file⟩
  size : (d.files file).size = bytes.length
  contents : load (d.files file).contents 0 bytes.length = bytes

/-- The path is open for reading, and of the file with these bytes so many have been read. -/
structure Reading (d : Daemon) (path file : Nat) (bytes : List UInt8) (offset : Nat) : Prop where
  known : path < MAX_PATHS
  path : d.paths path = ⟨false, offset, some file⟩
  size : (d.files file).size = bytes.length
  contents : load (d.files file).contents 0 bytes.length = bytes

/-- The name under which a file is found. -/
def fileName (signed : Bool) (name : List UInt8) : List UInt8 :=
  name.takeWhile fun c => ¬char signed c ≤ 32

theorem setFile_files (d : Daemon) (file : Nat) (f : FileInfo) :
    (d.setFile file f).files file = f := Function.update_self ..

theorem setFile_name (d : Daemon) {f : FileInfo} (same : f.name = (d.files file).name) (i : Nat) :
    ((d.setFile file f).files i).name = (d.files i).name := by
  by_cases here : i = file
  · rw [here, setFile_files, same]
  · exact congrArg FileInfo.name (Function.update_of_ne here ..)

theorem truncate_name (d : Daemon) (path file i : Nat) :
    ((d.truncate path file).files i).name = (d.files i).name :=
  @setFile_name file d { d.files file with size := 0 } rfl i

theorem writing_truncate (known : path < MAX_PATHS) (d : Daemon) (file : Nat) :
    Writing (d.truncate path file) path file [] where
  known := known
  path := Function.update_self ..
  size := congrArg FileInfo.size (setFile_files d file _)
  contents := rfl

theorem writing_of_openWrite {name : List UInt8} {reply : Reply} (short : name.length ≤ PAYSIZ)
    (opens : serve signed d (openRequest 2 path name) = some (d', reply))
    (okay : reply.status = 0) :
    ∃ file, Writing d' path file [] ∧ FindFile d' (fileName signed name) = some file := by
  obtain ⟨e, e_eq⟩ : ∃ e : Daemon,
      e = { d with payload := store d.payload 0 (name.take PAYSIZ) } := ⟨_, rfl⟩
  have named : RequestedFileName signed e name.length = fileName signed name := by
    rw [e_eq]
    exact congrArg (List.takeWhile _) (load_request short d)
  have opened : serve signed d (openRequest 2 path name) =
      if (DoOpenWrite signed (openRequest 2 path name) e).2 = 0 ∧ MAX_PATHS ≤ path then none
      else some ((DoOpenWrite signed (openRequest 2 path name) e).1,
        .of (DoOpenWrite signed (openRequest 2 path name) e).2 0) := by
    rw [e_eq]
    rfl
  rw [opened] at opens
  split at opens
  · cases opens
  rename_i inPaths
  have status : (DoOpenWrite signed (openRequest 2 path name) e).2 = 0 := by
    cases opens
    exact okay
  have after : (DoOpenWrite signed (openRequest 2 path name) e).1 = d' := by
    cases opens
    rfl
  have known : path < MAX_PATHS := not_le.mp fun beyond => inPaths ⟨status, beyond⟩
  have request : (openRequest 2 path name).size = name.length := rfl
  rw [DoOpenWrite, request, named] at status after
  -- the file was there, or it takes an unused place
  rcases found : FindFile e (fileName signed name) with _ | file
  · rw [found] at status after
    rcases unused : FindUnusedFile e with _ | file
    · rw [unused] at status
      exact absurd status (by decide : ¬E_FULL = 0)
    · rw [unused] at after
      have fresh := @findFile_setFile e file (fileName signed name)
        { e.files file with name := some (fileName signed name) } found unused rfl
      refine ⟨file, after ▸ writing_truncate known _ file, ?_⟩
      rw [← fresh, ← after]
      exact findFile_congr (truncate_name _ path file) _
  · rw [found] at after
    refine ⟨file, after ▸ writing_truncate known e file, ?_⟩
    rw [← found, ← after]
    exact findFile_congr (truncate_name e path file) _

/-! ### Writing -/

/-- The bytes are appended. -/
theorem Writing.append {bytes data : List UInt8} (writing : Writing d path file bytes)
    (small : bytes.length + data.length < 65536) :
    Writing (d.setFile file
      { d.files file with
        contents := store (d.files file).contents (d.files file).size data
        size := ((d.files file).size + data.length) % 65536 }) path file (bytes ++ data) where
  known := writing.known
  path := writing.path
  size := by
    rw [setFile_files, writing.size, List.length_append]
    exact Nat.mod_eq_of_lt small
  contents := by
    rw [setFile_files, writing.size, List.length_append, load_add, Nat.zero_add,
      load_store_of_apart _ (.inl (Nat.le_of_eq (Nat.zero_add _))), load_store_self,
      writing.contents]

theorem Writing.doWrite {bytes : List UInt8} (writing : Writing d path file bytes) (linely : Bool)
    {q : Request} (here : q.path_num = path) {data : List UInt8}
    (count : (if linely then lineEnd d.payload q.size 0 else q.size) = data.length)
    (held : load d.payload 0 data.length = data)
    (small : bytes.length + data.length ≤ MAX_BLOCK) :
    ∃ d', DoWrite linely q d = some (d', .of 0 data.length) ∧
      Writing d' path file (bytes ++ data) ∧ ∀ i, (d'.files i).name = (d.files i).name := by
  have word : bytes.length + data.length < 65536 := Nat.lt_of_le_of_lt small (by decide)
  refine ⟨_, ?_, writing.append word, setFile_name d rfl⟩
  rw [DoWrite, here, writing.path, if_neg (not_le.mpr writing.known)]
  dsimp only
  rw [if_neg (not_not_intro rfl), count, held, if_neg]
  rw [writing.size, Nat.mod_eq_of_lt word]
  exact not_lt.mpr small

/-- One call of a writing program. -/
theorem Writing.serve {bytes : List UInt8} (writing : Writing d path file bytes) (call : WriteCall)
    (fits : call.Fits) (small : bytes.length + call.written.length ≤ MAX_BLOCK) :
    ∃ d', serve signed d (call.request path) = some (d', .of 0 call.written.length) ∧
      Writing d' path file (bytes ++ call.written) ∧
      ∀ i, (d'.files i).name = (d.files i).name := by
  cases call with
  | write data =>
    exact @Writing.doWrite { d with payload := store d.payload 0 (data.take PAYSIZ) } path file
      bytes ⟨writing.known, writing.path, writing.size, writing.contents⟩ false
      ((WriteCall.write data).request path) rfl data rfl (load_request fits d) small
  | writLn data =>
    obtain ⟨line, line_eq⟩ : ∃ line, line = upTo 13 (data.take PAYSIZ) := ⟨_, rfl⟩
    have held : load (store d.payload 0 (data.take PAYSIZ)) 0 (min data.length PAYSIZ) =
        data.take PAYSIZ := by
      have all := load_store_self d.payload 0 (data.take PAYSIZ)
      rw [List.length_take, Nat.min_comm] at all
      exact all
    have begins := upTo_first 13 (data.take PAYSIZ)
    have length := begins.length_le
    rw [← line_eq, List.length_take, Nat.min_comm] at length
    have bytes' : load (store d.payload 0 (data.take PAYSIZ)) 0 line.length = line := by
      rw [← take_load _ _ length, held, line_eq]
      exact (List.prefix_iff_eq_take.mp begins).symm
    have fixed : lineEnd (store d.payload 0 (data.take PAYSIZ)) (min data.length PAYSIZ) 0 =
        line.length := by
      rw [lineEnd_eq, held, Nat.zero_add, line_eq]
    have again : lineEnd (store d.payload 0 (data.take PAYSIZ)) line.length 0 = line.length := by
      rw [lineEnd_eq, bytes', Nat.zero_add, line_eq, upTo_upTo]
    obtain ⟨d', served, after⟩ := @Writing.doWrite
      { d with payload := store d.payload 0 (data.take PAYSIZ) } path file bytes
      ⟨writing.known, writing.path, writing.size, writing.contents⟩ true
      { (WriteCall.writLn data).request path with size := line.length } rfl line again bytes'
      (by rw [line_eq]; exact small)
    rw [line_eq] at served after
    refine ⟨d', Eq.trans ?_ served, after⟩
    show DoWrite true { (WriteCall.writLn data).request path with
      size := lineEnd (store d.payload 0 (data.take PAYSIZ)) (min data.length PAYSIZ) 0 } _ = _
    rw [fixed, line_eq]
    rfl

theorem Writing.serveAll {bytes : List UInt8} (writing : Writing d path file bytes)
    (calls : List WriteCall) (fits : ∀ call ∈ calls, call.Fits)
    (small : (bytes ++ calls.flatMap WriteCall.written).length ≤ MAX_BLOCK) :
    ∃ d', serveAll signed d (calls.map (·.request path)) =
        some (d', calls.map fun call => .of 0 call.written.length) ∧
      Writing d' path file (bytes ++ calls.flatMap WriteCall.written) ∧
      ∀ i, (d'.files i).name = (d.files i).name := by
  induction calls generalizing d bytes with
  | nil =>
    rw [List.flatMap_nil, List.append_nil]
    exact ⟨d, rfl, writing, fun _ => rfl⟩
  | cons call calls inductionHypothesis =>
    rw [List.flatMap_cons, ← List.append_assoc] at small ⊢
    have less : bytes.length + call.written.length ≤ MAX_BLOCK := by
      rw [List.length_append, List.length_append] at small
      omega
    obtain ⟨d₁, served, writing₁, names₁⟩ := @Writing.serve signed _ _ _ _ writing call
      (fits call List.mem_cons_self) less
    obtain ⟨d₂, servedAll, writing₂, names₂⟩ := inductionHypothesis writing₁
      (fun other member => fits other (List.mem_cons_of_mem _ member)) small
    refine ⟨d₂, ?_, writing₂, fun i => (names₂ i).trans (names₁ i)⟩
    rw [List.map_cons, RamFile.serveAll, served]
    dsimp only
    rw [servedAll]
    rfl

/-! ### Reading -/

/-- The path that wrote is closed, and the file is opened on a path for reading. -/
theorem Writing.reopen {bytes name : List UInt8} (writing : Writing d path file bytes)
    (short : name.length ≤ PAYSIZ) (found : FindFile d (fileName signed name) = some file)
    {other : Nat} (known : other < MAX_PATHS) :
    ∃ d', RamFile.serveAll signed d [closeRequest path, openRequest 1 other name] =
        some (d', [.of 0 0, .of 0 0]) ∧ Reading d' other file bytes 0 := by
  obtain ⟨closed, closed_eq⟩ : ∃ closed : Daemon, closed =
      { d with payload := store d.payload 0 [] }.setPath path ⟨false, 0, none⟩ := ⟨_, rfl⟩
  have files : closed.files = d.files := by
    rw [closed_eq]
    rfl
  obtain ⟨e, e_eq⟩ : ∃ e : Daemon,
      e = { closed with payload := store closed.payload 0 (name.take PAYSIZ) } := ⟨_, rfl⟩
  have files' : e.files = d.files := by
    rw [e_eq]
    exact files
  have named : RequestedFileName signed e name.length = fileName signed name := by
    rw [e_eq]
    exact congrArg (List.takeWhile _) (load_request short closed)
  have found' : FindFile e (fileName signed name) = some file := by
    rw [← found]
    exact findFile_congr (fun i => by rw [files']) _
  have opened : DoOpenRead signed (openRequest 1 other name) e =
      (e.setPath other ⟨false, 0, some file⟩, 0) := by
    have request : (openRequest 1 other name).size = name.length := rfl
    rw [DoOpenRead, request, named, found']
    rfl
  refine ⟨e.setPath other ⟨false, 0, some file⟩, ?_, ?_⟩
  · have first : RamFile.serve signed d (closeRequest path) = some (closed, .of 0 0) := by
      rw [closed_eq]
      exact if_neg (not_le.mpr writing.known)
    have second : RamFile.serve signed closed (openRequest 1 other name) =
        if (DoOpenRead signed (openRequest 1 other name) e).2 = 0 ∧ MAX_PATHS ≤ other then none
        else some ((DoOpenRead signed (openRequest 1 other name) e).1,
          .of (DoOpenRead signed (openRequest 1 other name) e).2 0) := by
      rw [e_eq]
      rfl
    rw [RamFile.serveAll, first]
    dsimp only
    rw [RamFile.serveAll, second, if_neg fun beyond => not_le.mpr known beyond.2, opened]
    rfl
  · have same : (e.setPath other ⟨false, 0, some file⟩).files = d.files := files'
    refine ⟨known, Function.update_self .., ?_, ?_⟩
    · rw [same, writing.size]
    · rw [same, writing.contents]

/-- A part of what is left is at the offset. -/
theorem Reading.load_rest {bytes : List UInt8} {offset n : Nat}
    (reading : Reading d path file bytes offset) (inside : offset ≤ bytes.length)
    (fits : n ≤ bytes.length - offset) :
    load (d.files file).contents offset n = (bytes.drop offset).take n := by
  have split : bytes.length = offset + (bytes.length - offset) := by omega
  have all := reading.contents
  rw [split, load_add, Nat.zero_add] at all
  have rest := congrArg (List.drop offset) all
  rw [List.drop_left' (length_load ..)] at rest
  rw [← rest, take_load _ _ fits]

theorem Reading.doRead_end {bytes : List UInt8} {offset : Nat} {q : Request}
    (reading : Reading d path file bytes offset) (here : q.path_num = path)
    (ended : bytes.length ≤ offset) (linely : Bool) :
    DoRead linely q d = some (d, .of E_EOF 0) := by
  rw [DoRead, here, reading.path, if_neg (not_le.mpr reading.known)]
  dsimp only
  rw [if_neg Bool.false_ne_true, reading.size, if_pos ended]

theorem Reading.doRead {bytes : List UInt8} {offset i n : Nat} {q : Request} {linely : Bool}
    (reading : Reading d path file bytes offset) (here : q.path_num = path)
    (more : offset < bytes.length)
    (stop : (if linely then lineEnd (d.files file).contents (bytes.length - offset) offset
      else min ((offset + q.size) % 65536) bytes.length) = i)
    (count : (i + 65536 - offset) % 65536 = n) :
    DoRead linely q d = some (d.setPath path ⟨false, i, some file⟩,
      ⟨0, n, load (d.files file).contents offset n⟩) := by
  rw [DoRead, here, reading.path, if_neg (not_le.mpr reading.known)]
  dsimp only
  rw [if_neg Bool.false_ne_true, reading.size, if_neg (not_le.mpr more), stop, count]

theorem Reading.advance {bytes : List UInt8} {offset : Nat}
    (reading : Reading d path file bytes offset) (i : Nat) :
    Reading (d.setPath path ⟨false, i, some file⟩) path file bytes i :=
  ⟨reading.known, Function.update_self .., reading.size, reading.contents⟩

/-- What a plain read answers. -/
theorem Reading.doRead_plain {bytes : List UInt8} {offset : Nat} {q : Request} {size : UInt16}
    (reading : Reading d path file bytes offset) (here : q.path_num = path)
    (asked : q.size = size.toNat) (small : bytes.length < 65536) (more : offset < bytes.length) :
    ∃ d' reply, DoRead false q d = some (d', reply) ∧ reply.status = 0 ∧
      (reply.payload = (ReadCall.read size).wanted (bytes.drop offset) ↔
        (ReadCall.read size).Fits bytes.length (bytes.drop offset)) ∧
      (∃ i, Reading d' path file bytes i) ∧
      ((ReadCall.read size).Fits bytes.length (bytes.drop offset) → Reading d' path file bytes
        (offset + ((ReadCall.read size).wanted (bytes.drop offset)).length)) := by
  have word := size.toNat_lt
  have rest : (bytes.drop offset).length = bytes.length - offset := List.length_drop
  have before : bytes.length - (bytes.drop offset).length = offset := by omega
  have wants : ((ReadCall.read size).wanted (bytes.drop offset)).length =
      min (min size.toNat PAYSIZ) (bytes.length - offset) := by
    rw [ReadCall.wanted, List.length_take, rest]
  rw [ReadCall.Fits, before, rest]
  by_cases wraps : offset + size.toNat < 65536
  · have count : (min ((offset + q.size) % 65536) bytes.length + 65536 - offset) % 65536 =
        min size.toNat (bytes.length - offset) := by
      rw [asked]
      omega
    refine ⟨_, _, reading.doRead here more rfl count, rfl, ?_, ⟨_, reading.advance _⟩,
      fun fits => ?_⟩
    · show load _ _ _ = (bytes.drop offset).take (min size.toNat PAYSIZ) ↔ _
      rw [reading.load_rest (Nat.le_of_lt more) (Nat.min_le_right _ _), List.take_eq_take_iff, rest]
      constructor
      · intro same
        exact ⟨wraps, by omega⟩
      · rintro ⟨_, fits⟩
        omega
    · have moved : min ((offset + q.size) % 65536) bytes.length =
          offset + ((ReadCall.read size).wanted (bytes.drop offset)).length := by
        rw [wants, asked]
        have few := fits.2
        omega
      rw [← moved]
      exact reading.advance _
  · have count : (min ((offset + q.size) % 65536) bytes.length + 65536 - offset) % 65536 =
        size.toNat := by
      rw [asked]
      omega
    refine ⟨_, _, reading.doRead here more rfl count, rfl, ?_, ⟨_, reading.advance _⟩,
      fun fits => absurd fits.1 wraps⟩
    refine iff_of_false (fun same => ?_) fun fits => wraps fits.1
    have length := congrArg List.length same
    rw [wants] at length
    have counted : (load (d.files file).contents offset size.toNat).length = size.toNat :=
      length_load ..
    have short := counted.symm.trans length
    omega

/-- What a read of a line answers. -/
theorem Reading.doRead_line {bytes : List UInt8} {offset : Nat} {q : Request} {size : UInt16}
    (reading : Reading d path file bytes offset) (here : q.path_num = path)
    (small : bytes.length < 65536) (more : offset < bytes.length) :
    ∃ d' reply, DoRead true q d = some (d', reply) ∧ reply.status = 0 ∧
      (reply.payload = (ReadCall.readLn size).wanted (bytes.drop offset) ↔
        (ReadCall.readLn size).Fits bytes.length (bytes.drop offset)) ∧
      (∃ i, Reading d' path file bytes i) ∧
      ((ReadCall.readLn size).Fits bytes.length (bytes.drop offset) → Reading d' path file bytes
        (offset + ((ReadCall.readLn size).wanted (bytes.drop offset)).length)) := by
  have begins := upTo_first 13 (bytes.drop offset)
  have length := begins.length_le
  rw [List.length_drop] at length
  have stop : lineEnd (d.files file).contents (bytes.length - offset) offset =
      offset + (upTo 13 (bytes.drop offset)).length := by
    rw [lineEnd_eq, reading.load_rest (Nat.le_of_lt more) (Nat.le_refl _),
      List.take_of_length_le (Nat.le_of_eq List.length_drop)]
  have count : (offset + (upTo 13 (bytes.drop offset)).length + 65536 - offset) % 65536 =
      (upTo 13 (bytes.drop offset)).length := by omega
  have wants : (ReadCall.readLn size).wanted (bytes.drop offset) =
      (upTo 13 (bytes.drop offset)).take (min size.toNat PAYSIZ) := upTo_take ..
  refine ⟨_, _, reading.doRead here more stop count, rfl, ?_, ⟨_, reading.advance _⟩,
    fun fits => ?_⟩
  · show load _ _ _ = _ ↔ _
    rw [reading.load_rest (Nat.le_of_lt more) length, ← List.prefix_iff_eq_take.mp begins, wants,
      eq_comm, List.take_eq_self_iff]
    rfl
  · rw [wants, List.take_of_length_le fits]
    exact reading.advance _

/-- One call of a reading program. -/
theorem Reading.serve {bytes : List UInt8} {offset : Nat}
    (reading : Reading d path file bytes offset) (small : bytes.length < 65536) (call : ReadCall) :
    ∃ d' reply, RamFile.serve signed d (call.request path) = some (d', reply) ∧
      (bytes.length ≤ offset → reply = .of E_EOF 0 ∧ Reading d' path file bytes offset) ∧
      (offset < bytes.length → reply.status = 0 ∧
        (reply.payload = call.wanted (bytes.drop offset) ↔
          call.Fits bytes.length (bytes.drop offset)) ∧
        (∃ i, Reading d' path file bytes i) ∧
        (call.Fits bytes.length (bytes.drop offset) →
          Reading d' path file bytes (offset + (call.wanted (bytes.drop offset)).length))) := by
  have reading' : Reading { d with payload := store d.payload 0 [] } path file bytes offset :=
    ⟨reading.known, reading.path, reading.size, reading.contents⟩
  by_cases ended : bytes.length ≤ offset
  · refine ⟨_, .of E_EOF 0, ?_, fun _ => ⟨rfl, reading'⟩, fun more => absurd more (by omega)⟩
    cases call with
    | read size => exact reading'.doRead_end rfl ended false
    | readLn size => exact reading'.doRead_end rfl ended true
  · have more := not_le.mp ended
    cases call with
    | read size =>
      obtain ⟨d', reply, served, status, right, still, next⟩ :=
        reading'.doRead_plain (q := (ReadCall.read size).request path) rfl rfl small more
      exact ⟨d', reply, served, fun no => absurd no ended, fun _ => ⟨status, right, still, next⟩⟩
    | readLn size =>
      obtain ⟨d', reply, served, status, right, still, next⟩ :=
        @Reading.doRead_line _ _ _ _ _ ((ReadCall.readLn size).request path) size reading' rfl small
          more
      exact ⟨d', reply, served, fun no => absurd no ended, fun _ => ⟨status, right, still, next⟩⟩

/-! ### Every sequence of calls -/

/-- By induction on the calls. Once a reply was wrong, the others do not matter. -/
theorem Reading.serveAll {bytes : List UInt8} {offset : Nat}
    (reading : Reading d path file bytes offset) (small : bytes.length < 65536)
    (calls : List ReadCall) :
    ∃ d' replies, RamFile.serveAll signed d (calls.map (·.request path)) = some (d', replies) ∧
      (ReadBack (bytes.drop offset) calls replies ↔
        ReadsFit bytes.length (bytes.drop offset) calls) := by
  induction calls generalizing d offset with
  | nil => exact ⟨d, [], rfl, Iff.rfl⟩
  | cons call calls inductionHypothesis =>
    obtain ⟨d₁, reply, served, ends, goes⟩ := @Reading.serve signed _ _ _ _ _ reading small call
    have serves : ∀ {d₂ replies}, RamFile.serveAll signed d₁ (calls.map (·.request path)) =
        some (d₂, replies) → RamFile.serveAll signed d
          ((call :: calls).map (·.request path)) = some (d₂, reply :: replies) := by
      intro d₂ replies later
      rw [List.map_cons, RamFile.serveAll, served]
      dsimp only
      rw [later]
    by_cases ended : bytes.length ≤ offset
    · obtain ⟨rfl, reading₁⟩ := ends ended
      obtain ⟨d₂, replies, later, right⟩ := inductionHypothesis reading₁
      have empty : bytes.drop offset = [] := List.drop_eq_nil_of_le ended
      rw [empty] at right
      refine ⟨d₂, _, serves later, ?_⟩
      rw [empty, ReadBack, ReadsFit, if_pos rfl, List.drop_nil, right]
      exact and_congr_left fun _ => iff_of_true ⟨rfl, rfl⟩ (.inl rfl)
    · have more := not_le.mp ended
      obtain ⟨status, right, ⟨i, still⟩, next⟩ := goes more
      have nonempty : bytes.drop offset ≠ [] := by
        intro empty
        exact ended (List.drop_eq_nil_iff.mp empty)
      by_cases fits : call.Fits bytes.length (bytes.drop offset)
      · obtain ⟨d₂, replies, later, rights⟩ := inductionHypothesis (next fits)
        refine ⟨d₂, _, serves later, ?_⟩
        rw [ReadBack, ReadsFit, if_neg nonempty, List.drop_drop, rights]
        exact and_congr_left fun _ => iff_of_true ⟨status, right.mpr fits⟩ (.inr fits)
      · obtain ⟨d₂, replies, later, _⟩ := inductionHypothesis still
        refine ⟨d₂, _, serves later, ?_⟩
        rw [ReadBack, ReadsFit, if_neg nonempty]
        refine iff_of_false (fun back => fits (right.mp back.1.2)) fun all => ?_
        exact all.1.elim nonempty fits

/-- What is read back is the file from its beginning on, and no more than was asked for. -/
theorem ReadBack.prefix_of {rest : List UInt8} {calls : List ReadCall} {replies : List Reply}
    (back : ReadBack rest calls replies) : replies.flatMap Reply.payload <+: rest := by
  induction replies generalizing rest calls with
  | nil => exact List.nil_prefix
  | cons reply replies inductionHypothesis =>
    cases calls with
    | nil => exact back.elim
    | cons call calls =>
      obtain ⟨here, later⟩ := back
      have begins := inductionHypothesis later
      split at here
      · rename_i empty
        rw [empty, List.drop_nil] at begins
        rw [List.flatMap_cons, here.2, empty]
        exact begins
      · rw [List.flatMap_cons, here.2]
        have wanted : call.wanted rest <+: rest := by
          cases call with
          | read size => exact List.take_prefix _ _
          | readLn size => exact (upTo_first 13 _).trans (List.take_prefix _ _)
        generalize call.wanted rest = bytes at begins wanted
        obtain ⟨behind, rfl⟩ := wanted
        rw [List.drop_left] at begins
        exact (List.prefix_append_right_inj bytes).mpr begins

/-- After every sequence of writes that fit and have no more bytes together than the largest block,
the file is read back, call by call, if and only if the reads fit. -/
theorem readBack_iff (signed : Bool) {d d₁ : Daemon} {writer : Nat} {name : List UInt8}
    {opened : Reply} (short : name.length ≤ PAYSIZ)
    (opens : serve signed d (openRequest 2 writer name) = some (d₁, opened))
    (okay : opened.status = 0) {writes : List WriteCall} (fits : ∀ call ∈ writes, call.Fits)
    (small : (writes.flatMap WriteCall.written).length ≤ MAX_BLOCK) {reader : Nat}
    (known : reader < MAX_PATHS) (reads : List ReadCall) :
    ∃ d₂ d₃ d₄ replies,
      serveAll signed d₁ (writes.map (·.request writer)) =
          some (d₂, writes.map fun call => .of 0 call.written.length) ∧
        serveAll signed d₂ [closeRequest writer, openRequest 1 reader name] =
          some (d₃, [.of 0 0, .of 0 0]) ∧
        serveAll signed d₃ (reads.map (·.request reader)) = some (d₄, replies) ∧
        (ReadBack (writes.flatMap WriteCall.written) reads replies ↔
          ReadsFit (writes.flatMap WriteCall.written).length
            (writes.flatMap WriteCall.written) reads) := by
  obtain ⟨file, writing, found⟩ := writing_of_openWrite short opens okay
  obtain ⟨d₂, written, writing₂, names⟩ :=
    @Writing.serveAll signed _ _ _ _ writing writes fits small
  have found₂ : FindFile d₂ (fileName signed name) = some file :=
    (findFile_congr names _).trans found
  obtain ⟨d₃, reopened, reading⟩ := writing₂.reopen short found₂ known
  obtain ⟨d₄, replies, read, right⟩ := @Reading.serveAll signed _ _ _ _ _ reading
    (Nat.lt_of_le_of_lt small (by decide)) reads
  exact ⟨d₂, d₃, d₄, replies, written, reopened, read, right⟩

/-- A daemon without files. -/
def fresh : Daemon := ⟨fun _ => 0, fun _ => ⟨false, 0, none⟩, fun _ => ⟨none, fun _ => 0, 0⟩⟩

theorem readBack_iff_oneLine :
    ∃ d₁ opened, serve false fresh (openRequest 2 0 [65]) = some (d₁, opened) ∧
      ∃ d₂ d₃ d₄ replies,
        serveAll false d₁ ([.writLn [72, 105, 13], .write [98]].map (WriteCall.request 0)) =
            some (d₂, [.writLn [72, 105, 13], .write [98]].map
              fun call => .of 0 (WriteCall.written call).length) ∧
          serveAll false d₂ [closeRequest 0, openRequest 1 3 [65]] =
            some (d₃, [.of 0 0, .of 0 0]) ∧
          serveAll false d₃ ([.readLn 80, .read 5, .read 5].map (ReadCall.request 3)) =
            some (d₄, replies) ∧
          (ReadBack [72, 105, 13, 98] [.readLn 80, .read 5, .read 5] replies ↔
            ReadsFit 4 [72, 105, 13, 98] [.readLn 80, .read 5, .read 5]) := by
  have answered : (serve false fresh (openRequest 2 0 [65])).map Prod.snd = some (.of 0 0) := by
    decide +kernel
  obtain ⟨⟨d₁, opened⟩, opens, rfl⟩ := Option.map_eq_some_iff.mp answered
  refine ⟨d₁, _, opens, readBack_iff false (by decide) opens rfl (fun call member => ?_)
    (by decide) (by decide) _⟩
  rcases List.mem_cons.mp member with rfl | rest
  · exact (by decide : 3 < 65536)
  · cases List.mem_singleton.mp rest
    exact (by decide : 1 ≤ PAYSIZ)

/-- Two bytes of a line are asked for, and all of it comes. -/
theorem not_readBack_longLine :
    ¬∀ (d : Daemon) (reads : List ReadCall) (replies : List Reply),
      serveAll false fresh ([openRequest 2 0 [65], (WriteCall.writLn [97, 98, 99, 13]).request 0,
          closeRequest 0, openRequest 1 0 [65]] ++ reads.map (·.request 0)) =
        some (d, [.of 0 0, .of 0 4, .of 0 0, .of 0 0] ++ replies) →
      ReadBack [97, 98, 99, 13] reads replies := by
  intro all
  have answered : (serveAll false fresh ([openRequest 2 0 [65],
      (WriteCall.writLn [97, 98, 99, 13]).request 0, closeRequest 0, openRequest 1 0 [65]] ++
        [ReadCall.readLn 2].map (·.request 0))).map Prod.snd =
      some ([.of 0 0, .of 0 4, .of 0 0, .of 0 0] ++ [⟨0, 4, [97, 98, 99, 13]⟩]) := by
    decide +kernel
  obtain ⟨⟨d, replies⟩, served, rfl⟩ := Option.map_eq_some_iff.mp answered
  have right := (all d _ _ served).1.2
  exact absurd right (by decide +kernel)

end Frobio.RamFile
