import Vigil.Files.Disk

/-!
# What every system has

The folders, files and programs that a command finds on any disk, and how a program is looked for: by its
path, or by its name in one folder after the other.
-/

namespace Vigil

namespace Disk

def commonFolders : List Location :=
  [ ["bin"], ["boot"], ["dev"], ["dev", "fd"], ["dev", "pts"], ["dev", "shm"], ["etc"], ["home"], ["lib"],
    ["media"], ["mnt"], ["opt"], ["proc"], ["proc", "self"], ["root"], ["run"], ["sbin"], ["srv"],
    ["sys"], ["tmp"], ["usr"], ["usr", "bin"], ["usr", "include"], ["usr", "lib"], ["usr", "local"],
    ["usr", "local", "bin"], ["usr", "local", "lib"], ["usr", "local", "sbin"], ["usr", "sbin"],
    ["usr", "share"], ["var"], ["var", "cache"], ["var", "lib"], ["var", "log"], ["var", "run"],
    ["var", "tmp"] ]

def commonDevices : List Location := [["dev", "null"], ["dev", "stdin"], ["dev", "fd", "0"]]

def commonTexts : List Location :=
  [ ["etc", "debian_version"], ["etc", "group"], ["etc", "hostname"], ["etc", "hosts"], ["etc", "issue"],
    ["etc", "os-release"], ["etc", "passwd"], ["etc", "profile"], ["etc", "resolv.conf"],
    ["etc", "shadow"], ["proc", "cpuinfo"], ["proc", "loadavg"], ["proc", "meminfo"], ["proc", "mounts"],
    ["proc", "self", "cmdline"], ["proc", "self", "maps"], ["proc", "self", "stat"],
    ["proc", "self", "status"], ["proc", "stat"], ["proc", "uptime"], ["proc", "version"] ]

def commonText : Content := .bytes "root:x:0:0:root:/root:/bin/sh\n".toUTF8.toList

def commonFiles : List (Location × Content) :=
  commonDevices.map (·, .void) ++ commonTexts.map (·, commonText)

def commonPrograms : List String :=
  [ "[", "arch", "awk", "base64", "basename", "bash", "cat", "chmod", "chown", "cksum", "cmp", "comm",
    "cp", "cut", "dash", "date", "dd", "df", "diff", "dir", "dirname", "du", "echo", "env", "expand",
    "expr", "factor", "false", "find", "fold", "getconf", "grep", "groups", "gzip", "head", "hostid",
    "hostname", "id", "install", "join", "ln", "locale", "logname", "ls", "md5sum", "mkdir", "mkfifo",
    "mktemp", "mount", "mv", "nice", "nl", "nohup", "nproc", "od", "paste", "pathchk", "perl",
    "printenv", "printf", "pwd", "readlink", "realpath", "rm", "rmdir", "sed", "seq", "setsid", "sh",
    "sha1sum", "sha256sum", "sha512sum", "shuf", "sleep", "sort", "split", "stat", "stdbuf", "stty",
    "sum", "sync", "tac", "tail", "tar", "tee", "test", "timeout", "touch", "tr", "true", "truncate",
    "tsort", "tty", "uname", "unexpand", "uniq", "users", "wc", "which", "who", "whoami", "xargs",
    "yes" ]

def programFolders : List Location := [["bin"], ["usr", "bin"]]

def programLocations : List Location :=
  programFolders.flatMap fun folder => commonPrograms.map fun name => folder ++ [name]

def programContent : Content := .bytes ([0x7F, 0x45, 0x4C, 0x46, 0x02, 0xFF] : List UInt8)

def bare (home : Location) : Disk :=
  { home
    files := commonFiles ++ programLocations.map (·, programContent)
    folders := home :: commonFolders
    runnable := programLocations }

def putWithFolders (d : Disk) (l : Location) (c : Content) : Disk :=
  let d := d.put l c
  { d with folders := d.folders ++ (List.range l.length).map (l.take ·) }

def ofFiles (files : List (String × Content)) : Disk :=
  let home := ["tmp", "rehearsal"]
  files.foldl (fun d (name, c) => d.putWithFolders (home ++ (FilePath.ofText name).parts) c) (bare home)

/-! ## Programs -/

inductive Executable where
  | program (name : String)
  | script (text : String)
  | unknown (text : String)
  deriving DecidableEq, Repr

def executableOf (l : Location) (c : Content) : Executable :=
  if l ∈ programLocations then .program (l.getLast?.getD "")
  else
    match c with
    | .incidents _ | .void => .unknown ""
    | .bytes bs =>
      let text := Utf8.decodeLossy bs
      if text.startsWith "#!" then .script text else .unknown text

/-- What stands at a path as far as it can be run. -/
def executableAt (d : Disk) (path : String) : Except SystemError Executable :=
  match d.find path with
  | .folder _ => .error .denied
  | .file l c => if l ∈ d.runnable then .ok (executableOf l c) else .error .denied
  | .vacant _ => .error .notFound
  | .refused e => .error e

def defaultSearch : String := "/usr/local/sbin:/usr/local/bin:/usr/sbin:/usr/bin:/sbin:/bin"

/-- Looks for a program in one folder after the other. What cannot be run is passed over, and makes the
difference only if nothing is found. -/
def searchIn (d : Disk) (name : String) : List String → SystemError → Except SystemError Executable
  | [], e => .error e
  | folder :: rest, e =>
    match d.executableAt ((if folder = "" then "." else folder) ++ "/" ++ name) with
    | .ok x => .ok x
    | .error e' => searchIn d name rest (if e' = .notFound || e' = .notDirectory then e else e')

def executable? (d : Disk) (search name : String) : Except SystemError Executable :=
  if name.contains '/' then d.executableAt name
  else if name = "" then .error .notFound
  else if isNameTooLong name then .error .nameTooLong
  else d.searchIn name (search.splitOn ":") .notFound

end Disk

end Vigil
