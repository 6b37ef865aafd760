import NetDisk.Lib.Prog
import NetDisk.Text

/-!
# The operations of the server

What the server asks of the operating system, the shell, MySQL and its mutex. A path or a command
is the text that the callee reads, after `c_str()`.
-/

namespace NetDisk

/-- The columns of a row that a query returned. -/
abbrev Row := List Bytes

inductive Sys where
  | mkdir (path : Bytes)
  | opendir (path : Bytes)
  | access (path : Bytes)
  /-- `opendir` and `readdir` to the end of the directory. -/
  | readdir (path : Bytes)
  /-- `open` with `O_RDWR | O_CREAT`. -/
  | openFile (path : Bytes)
  | write (fd : Nat) (buf : Bytes)
  | close (fd : Nat)
  | remove (path : Bytes)
  | symlink (target path : Bytes)
  /-- `popen`, and what the command prints. -/
  | shell (cmd : Bytes)
  | query (cmd : Bytes)
  /-- `mysql_store_result` and `mysql_fetch_row`. -/
  | fetch
  | lock
  | unlock
  | send (fd : Int) (msg : Bytes)
deriving DecidableEq

/-- What each operation replies. -/
abbrev Sys.Res : Sys → Type
  | .mkdir _ | .remove _ | .symlink _ _ => Option Errno
  | .opendir _ | .access _ | .send _ _ => Bool
  | .readdir _ => Option (Finset Name)
  | .openFile _ | .write _ _ => Option Nat
  | .close _ | .lock | .unlock => Unit
  | .shell _ => Option Bytes
  -- Whether the query succeeded.
  | .query _ => Bool
  | .fetch => Option Row

abbrev Code (α : Type) := Prog Sys Sys.Res α

def sys (op : Sys) : Code op.Res := .lift op

/-- The flags of the server, as the directories that their texts name. -/
structure Flags where
  usrRoot : Path
  filesRoot : Path
  usr_plain : ∀ n ∈ usrRoot, Plain n
  files_plain : ∀ n ∈ filesRoot, Plain n
  disjoint : ¬ usrRoot <+: filesRoot ∧ ¬ filesRoot <+: usrRoot

namespace Flags

/-- `FLAGS_usr_dir` -/
def usrDir (fl : Flags) : Bytes := dirText fl.usrRoot

/-- `FLAGS_files_dir` -/
def filesDir (fl : Flags) : Bytes := dirText fl.filesRoot

def serverData : Path := [ascii "home", ascii "ubuntu", ascii "network-disk-server", ascii "server_data"]

def default : Flags where
  usrRoot := serverData ++ [ascii "usr"]
  filesRoot := serverData ++ [ascii "files"]
  usr_plain := by decide +kernel
  files_plain := by decide +kernel
  disjoint := by decide +kernel

/-- `/u/` and `/f/` -/
def short : Flags where
  usrRoot := [ascii "u"]
  filesRoot := [ascii "f"]
  usr_plain := by decide +kernel
  files_plain := by decide +kernel
  disjoint := by decide +kernel

-- The values in `gflag_def.h`.
example : default.usrDir = ascii "/home/ubuntu/network-disk-server/server_data/usr/" := by decide +kernel
example : default.filesDir = ascii "/home/ubuntu/network-disk-server/server_data/files/" := by decide +kernel

end Flags

end NetDisk
