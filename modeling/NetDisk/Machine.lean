import NetDisk.Code.Sys
import NetDisk.Lib.Md5
import NetDisk.Lib.SqlText

/-!
# The machine under the server

What each operation does when the operating system, the shell and MySQL work as they should: it
fails only where the state makes it fail.

Assumed of the tables: their strings compare byte by byte, and every value fits its column. One that does
not fit would be a query that fails.
-/

namespace NetDisk

/-- A file is its bytes, and a symbolic link the text of its target. -/
abbrev FS := FileTree Name Bytes Bytes

/-! ## Tables -/

structure UsrRow where
  uid : Nat
  name : Bytes
  passwd : Bytes
deriving DecidableEq

structure SignRow where
  sign : Bytes
  fileName : Bytes
  reference : Nat
deriving DecidableEq

/-- `name` in `Usr` and `sign` in `SignMap` are unique. -/
structure DB where
  usr : List UsrRow
  signMap : List SignRow
  usr_unique : (usr.map UsrRow.name).Nodup
  sign_unique : (signMap.map SignRow.sign).Nodup

/-- The statements that the server has, with the values of their literals. -/
inductive Stmt where
  | selectUsr (name : Bytes)
  | insertUsr (name passwd : Bytes)
  | selectSign (sign : Bytes)
  | insertSigns (rows : List SignRow)
  | updateSign (sign : Bytes)
deriving DecidableEq

namespace Stmt

open SqlText (Token)

def words (s : String) : List Token := ((ascii s).splitOn space).map .word

def sym (c : Char) : Token := .sym (ch c)

/-- `SELECT uid FROM Usr where name =` -/
def selectUsrHead : List Token := words "SELECT uid FROM Usr where name" ++ [sym '=']

/-- `INSERT INTO Usr (name, passwd) VALUES(` -/
def insertUsrHead : List Token :=
  words "INSERT INTO Usr" ++ [sym '('] ++ words "name" ++ [sym ','] ++ words "passwd" ++ [sym ')'] ++
    words "VALUES" ++ [sym '(']

/-- `SELECT * FROM SignMap where sign =` -/
def selectSignHead : List Token :=
  words "SELECT" ++ [sym '*'] ++ words "FROM SignMap where sign" ++ [sym '=']

/-- `INSERT INTO SignMap (sign, fileName, reference) VALUES` -/
def insertSignHead : List Token :=
  words "INSERT INTO SignMap" ++ [sym '('] ++ words "sign" ++ [sym ','] ++ words "fileName" ++ [sym ','] ++
    words "reference" ++ [sym ')'] ++ words "VALUES"

/-- `UPDATE SignMap Set reference = reference + 1 where sign =` -/
def updateSignHead : List Token :=
  words "UPDATE SignMap Set reference" ++ [sym '='] ++ words "reference" ++ [sym '+'] ++
    words "1 where sign" ++ [sym '=']

/-- The statement, with or without the final semicolon. -/
def body (toks : List Token) : List Token :=
  if toks.getLast? = some (sym ';') then toks.dropLast else toks

/-- The rows of an `INSERT` into `SignMap`: `('...','...',1)`, with commas between them. -/
def signRows : List Token → Option (List SignRow)
  | [.sym l, .str s, .sym c, .str f, .sym c', .word n, .sym r] =>
    if l = ch '(' ∧ c = ch ',' ∧ c' = ch ',' ∧ n = ascii "1" ∧ r = ch ')' then some [⟨s, f, 1⟩] else none
  | .sym l :: .str s :: .sym c :: .str f :: .sym c' :: .word n :: .sym r :: .sym c'' :: rest =>
    if l = ch '(' ∧ c = ch ',' ∧ c' = ch ',' ∧ n = ascii "1" ∧ r = ch ')' ∧ c'' = ch ',' then
      (signRows rest).map (⟨s, f, 1⟩ :: ·)
    else none
  | _ => none

/-- The statement that the tokens are, if it is one of the five. -/
def parse (toks : List Token) : Option Stmt :=
  let toks := body toks
  if selectUsrHead <+: toks then
    match toks.drop selectUsrHead.length with
    | [.str n] => some (.selectUsr n)
    | _ => none
  else if insertUsrHead <+: toks then
    match toks.drop insertUsrHead.length with
    | [.str n, .sym c, .str p, .sym r] => if c = ch ',' ∧ r = ch ')' then some (.insertUsr n p) else none
    | _ => none
  else if selectSignHead <+: toks then
    match toks.drop selectSignHead.length with
    | [.str s] => some (.selectSign s)
    | _ => none
  else if insertSignHead <+: toks then
    (signRows (toks.drop insertSignHead.length)).map .insertSigns
  else if updateSignHead <+: toks then
    match toks.drop updateSignHead.length with
    | [.str s] => some (.updateSign s)
    | _ => none
  else none

def read (cmd : Bytes) : Option Stmt := SqlText.lex cmd >>= parse

end Stmt

def SignRow.columns (r : SignRow) : Row := [r.sign, r.fileName, toString r.reference]

def SignRow.countUp (sign : Bytes) (r : SignRow) : SignRow :=
  if r.sign = sign then { r with reference := r.reference + 1 } else r

@[simp] theorem SignRow.sign_countUp (sign : Bytes) (r : SignRow) : (r.countUp sign).sign = r.sign := by
  unfold countUp
  split <;> rfl

def DB.countUp (db : DB) (sign : Bytes) : DB where
  usr := db.usr
  signMap := db.signMap.map (SignRow.countUp sign)
  usr_unique := db.usr_unique
  sign_unique := by
    rw [List.map_map, show SignRow.sign ∘ SignRow.countUp sign = SignRow.sign from
      funext fun r => r.sign_countUp sign]
    exact db.sign_unique

/-- What a statement does, and its rows if it has a result; `none` when a unique column forbids it. The strings are
compared byte by byte, and no column is too short for them. -/
def DB.exec (db : DB) : Stmt → Option (DB × Option (List Row))
  | .selectUsr name => some (db, some ((db.usr.filter (·.name = name)).map fun r => [toString r.uid]))
  | .insertUsr name passwd =>
    let usr := db.usr ++ [⟨db.usr.length + 1, name, passwd⟩]
    if h : (usr.map UsrRow.name).Nodup then some ({ db with usr := usr, usr_unique := h }, none) else none
  | .selectSign sign => some (db, some ((db.signMap.filter (·.sign = sign)).map SignRow.columns))
  | .insertSigns rows =>
    if h : ((db.signMap ++ rows).map SignRow.sign).Nodup then
      some ({ db with signMap := db.signMap ++ rows, sign_unique := h }, none)
    else none
  | .updateSign sign => some (db.countUp sign, none)

/-! ## The state -/

/-- A file keeps being open when its entry is moved (`path` follows it) or removed (`none`). -/
structure OpenFile where
  path : Option Path
  offset : Nat
deriving DecidableEq

structure World where
  fs : FS
  fds : Nat → Option OpenFile
  nextFd : Nat
  db : DB
  /-- The rows that each thread has not fetched yet. -/
  pending : Nat → Option (List Row)
  locked : Bool
  sent : List (Int × Bytes)

/-- What the machine does with a shell command or a statement that is none of the server's own. -/
structure Env where
  cwd : Path
  shell : Bytes → FS → FS × Bytes
  sql : Bytes → DB → Option (DB × Option (List Row))

/-- Other commands print nothing and change nothing, and other statements fail. -/
def Env.bare : Env := ⟨[], fun _ fs => (fs, []), fun _ _ => none⟩

namespace Machine

/-! ## Files -/

/-- The number of symbolic links that one path may lead through. -/
def maxLinks : Nat := 40

def startDir (env : Env) (text : Bytes) : Path := if isAbsolute text then [] else env.cwd

/-- The path of what is there, or of what could be. -/
def resolve (env : Env) (fs : FS) (text : Bytes) : Except Errno Path :=
  if text = [] then .error .enoent
  else fs.walk readPath maxLinks (startDir env text) (pathComps text ++ finalSlash text)

/-- The path of an entry itself, even when it is a link. -/
def locate (env : Env) (fs : FS) (text : Bytes) : Except Errno Path :=
  if text = [] then .error .enoent
  else fs.locate readPath maxLinks (startDir env text) (pathComps text)

def mkdir (env : Env) (fs : FS) (path : Bytes) : Option Errno × FS :=
  match locate env fs path with
  | .error e => (some e, fs)
  | .ok p =>
    if h : fs.CanPut p ∧ fs.node p = none then (none, fs.put p .dir h.1) else (some .eexist, fs)

def isDir (env : Env) (fs : FS) (path : Bytes) : Option Path :=
  match resolve env fs path with
  | .error _ => none
  | .ok p => if fs.node p = some .dir then some p else none

def access (env : Env) (fs : FS) (path : Bytes) : Bool :=
  match resolve env fs path with
  | .error _ => false
  | .ok p => fs.node p ≠ none

/-- All entries, with `.` and `..`. -/
def readdir (env : Env) (fs : FS) (path : Bytes) : Option (Finset Name) :=
  (isDir env fs path).map fun p => insert dot (insert dotdot (fs.entries p))

/-- The path of the file that is open now, and the file system with it. -/
def openFile (env : Env) (fs : FS) (path : Bytes) : Option (Path × FS) :=
  match resolve env fs path with
  | .error _ => none
  | .ok p =>
    match fs.node p with
    | some (.file _) => some (p, fs)
    | none => if h : fs.CanPut p then some (p, fs.put p (.file []) h) else none
    | some _ => none

/-- `buf` over the bytes of `old` from `offset` on. -/
def overwrite (old : Bytes) (offset : Nat) (buf : Bytes) : Bytes :=
  old.take offset ++ List.replicate (offset - old.length) 0 ++ buf ++ old.drop (offset + buf.length)

def writeFile (fs : FS) (f : OpenFile) (buf : Bytes) : FS :=
  match f.path with
  | none => fs
  | some p =>
    match fs.node p with
    | some (.file old) => if h : fs.CanPut p then fs.put p (.file (overwrite old f.offset buf)) h else fs
    | _ => fs

def remove (env : Env) (fs : FS) (path : Bytes) : Option Errno × Option Path × FS :=
  match locate env fs path with
  | .error e => (some e, none, fs)
  | .ok p =>
    if fs.node p = none then (some .enoent, none, fs)
    else if h : fs.CanErase p then (none, some p, fs.erase p h)
    else (some .enotempty, none, fs)

def symlink (env : Env) (fs : FS) (target path : Bytes) : Option Errno × FS :=
  -- A link to no text at all is refused first.
  if target = [] then (some .enoent, fs)
  else match locate env fs path with
    | .error e => (some e, fs)
    | .ok p =>
      if h : fs.CanPut p ∧ fs.node p = none then
        -- A final slash asks for a directory that is there.
        if finalSlash path = [] then (none, fs.put p (.link target) h.1) else (some .enoent, fs)
      else (some .eexist, fs)

/-! ## The shell -/

/-- The words of a simple command; `none` where the shell does more than split it at spaces, or
where a word after the first could be an option. -/
def shWords (cmd : Bytes) : Option (List Bytes) :=
  let words := (cmd.splitOn space).filter (· ≠ [])
  if cmd.all (· ∉ shellSpecial) ∧ ∀ w ∈ words.tail, w.head? ≠ some (ch '-') then some words else none

/-- Where `mv` puts `src`: into `dst` if that is a directory, or else at `dst`. -/
def mvTarget (env : Env) (fs : FS) (src : Path) (dst : Bytes) : Except Errno Path :=
  match isDir env fs dst with
  | some d => match src.getLast? with
    | some n => .ok (d ++ [n])
    | none => .error .eexist
  | none => locate env fs dst

/-- A directory replaces an empty directory only, and another entry no directory. -/
def mvReplaces (fs : FS) (src dst : Path) : Prop :=
  fs.node dst = none ∨ (fs.node src = some .dir ↔ fs.node dst = some .dir)

instance (fs : FS) (src dst : Path) : Decidable (mvReplaces fs src dst) :=
  inferInstanceAs (Decidable (_ ∨ _))

/-- `mv src dst`: the two paths, when it can be done. -/
def mvPaths (env : Env) (fs : FS) (src dst : Bytes) : Option (Path × Path) :=
  match locate env fs src with
  | .error _ => none
  | .ok s =>
    if fs.node s = none then none
    else match mvTarget env fs s dst with
      | .error _ => none
      | .ok d => if mvReplaces fs s d then some (s, d) else none

def moveFds (s d : Path) (fds : Nat → Option OpenFile) : Nat → Option OpenFile :=
  fun k => (fds k).map fun f => { f with path := f.path.map (FileTree.reroot s d) }

/-- `mv` tells of an error on stderr only. -/
def mv (env : Env) (w : World) (src dst : Bytes) : World :=
  match mvPaths env w.fs src dst with
  | none => w
  | some (s, d) =>
    if h : w.fs.CanMove s d then { w with fs := w.fs.move s d h, fds := moveFds s d w.fds } else w

/-- `md5sum path`: the digest, two spaces, the path and a newline. An error is on stderr only. -/
def md5sum (env : Env) (fs : FS) (path : Bytes) : Bytes :=
  match resolve env fs path with
  | .error _ => []
  | .ok p =>
    match fs.node p with
    | some (.file content) => Md5.hexDigest content ++ ascii "  " ++ path ++ ascii "\n"
    | _ => []

def shell (env : Env) (w : World) (cmd : Bytes) : Bytes × World :=
  match shWords cmd with
  | some [c, path] => if c = ascii "md5sum" then (md5sum env w.fs path, w) else other
  | some [c, src, dst] => if c = ascii "mv" then ([], mv env w src dst) else other
  | _ => other
where
  other : Bytes × World := ((env.shell cmd w.fs).2, { w with fs := (env.shell cmd w.fs).1 })

/-! ## All operations -/

def sql (env : Env) (db : DB) (cmd : Bytes) : Option (DB × Option (List Row)) :=
  match Stmt.read cmd with
  | some stmt => db.exec stmt
  | none => env.sql cmd db

/-- The operation of thread `tid`. -/
def exec (env : Env) (tid : Nat) : Prog.Handler Sys Sys.Res World
  | .mkdir path, w => ((mkdir env w.fs path).1, { w with fs := (mkdir env w.fs path).2 })
  | .opendir path, w => ((isDir env w.fs path).isSome, w)
  | .access path, w => (access env w.fs path, w)
  | .readdir path, w => (readdir env w.fs path, w)
  | .openFile path, w =>
    match openFile env w.fs path with
    | none => (none, w)
    | some (p, fs) =>
      (some w.nextFd, { w with
        fs := fs
        fds := Function.update w.fds w.nextFd (some ⟨some p, 0⟩)
        nextFd := w.nextFd + 1 })
  | .write fd buf, w =>
    match w.fds fd with
    | none => (none, w)
    | some f =>
      (some buf.length, { w with
        fs := writeFile w.fs f buf
        fds := Function.update w.fds fd (some { f with offset := f.offset + buf.length }) })
  | .close fd, w => ((), { w with fds := Function.update w.fds fd none })
  | .remove path, w =>
    match remove env w.fs path with
    | (err, none, _) => (err, w)
    | (err, some p, fs) =>
      (err, { w with
        fs := fs
        fds := fun k => (w.fds k).map fun f => if f.path = some p then { f with path := none } else f })
  | .symlink target path, w =>
    ((symlink env w.fs target path).1, { w with fs := (symlink env w.fs target path).2 })
  | .shell cmd, w => (some (shell env w cmd).1, (shell env w cmd).2)
  | .query cmd, w =>
    match sql env w.db cmd with
    | none => (false, w)
    | some (db, rows) => (true, { w with db := db, pending := Function.update w.pending tid rows })
  | .fetch, w =>
    ((w.pending tid).bind List.head?, { w with pending := Function.update w.pending tid none })
  | .lock, w => ((), { w with locked := true })
  | .unlock, w => ((), { w with locked := false })
  | .send fd msg, w => (true, { w with sent := w.sent ++ [(fd, msg)] })

/-- A thread that locks the mutex waits until it is free. -/
def ready : Sys → World → Bool
  | .lock, w => !w.locked
  | _, _ => true

end Machine

end NetDisk
