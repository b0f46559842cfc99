import NetState.Fault

namespace NetState

/-- The network namespace of a session. -/
inductive Namespace where
  /-- That of the caller. -/
  | current
  /-- One with a name of its own. -/
  | named (name : String)
  /-- The one a file stands for. -/
  | file (path : String)
  deriving DecidableEq, Repr

namespace Namespace

/-- The directory of the files of named namespaces. -/
def directory : String := "/var/run/netns"

/-- The file that a namespace is entered by. -/
def path? : Namespace → Option String
  | current => none
  | named name => some (Path.join directory name)
  | file path => some path

/-- Directories that every system has. -/
def usualDirectories : List String :=
  ["bin", "boot", "dev/pts", "dev/shm", "etc", "home", "lib", "lib64", "media", "mnt", "opt",
    "proc/self/fd", "proc/sys/net", "root", "run", "sbin", "srv", "sys/class/net", "tmp", "usr/bin",
    "usr/lib", "usr/local", "usr/sbin", "usr/share", "var/cache", "var/lib", "var/log", "var/run",
    "var/tmp"]

/-- Files other than directories that every system has. -/
def usualFiles : List String :=
  ["bin/ls", "bin/sh", "dev/full", "dev/null", "dev/ptmx", "dev/random", "dev/stderr", "dev/stdin",
    "dev/stdout", "dev/tty", "dev/urandom", "dev/zero", "etc/fstab", "etc/group", "etc/hostname",
    "etc/hosts", "etc/os-release", "etc/passwd", "etc/profile", "etc/resolv.conf", "etc/shadow",
    "proc/cmdline", "proc/cpuinfo", "proc/filesystems", "proc/meminfo", "proc/mounts",
    "proc/self/cmdline", "proc/self/exe", "proc/self/maps", "proc/self/ns/ipc", "proc/self/ns/mnt",
    "proc/self/ns/net", "proc/self/ns/pid", "proc/self/ns/user", "proc/self/ns/uts",
    "proc/self/status", "proc/stat", "proc/sys/kernel/osrelease", "proc/uptime", "proc/version",
    "usr/bin/env"]

/-- A system with the usual files; what these hold plays no part. -/
def system : Files where
  entries :=
    usualDirectories.map (fun path => ((Path.ofText path).names, .directory)) ++
      usualFiles.map fun path => ((Path.ofText path).names, .file [])
  isRoot := true

/-- Where a path starts that does not start at the root. -/
def workingDirectory : List String := ["root"]

/-- The fault of entering a namespace that is not there by the file at a path: either the path leads
nowhere, or the file is that of something else. -/
def entryFault (path : String) : Fault :=
  match system.find workingDirectory path with
  | .error flaw => .notFound (.namespaceFile path flaw)
  | .ok _ => .io Errno.invalid

end Namespace

end NetState
