import UnreliableFS.CString

/-!
# The operations of the FUSE table

`fuse_op` and `fuse_op_name`, with every optional operation compiled in.
-/

namespace UnreliableFS

inductive FuseOp
  | getattr | readlink | mknod | mkdir | unlink | rmdir | symlink | rename | link
  | chmod | chown | truncate | open | read | write | statfs | flush | release | fsync
  | setxattr | getxattr | listxattr | removexattr | opendir | readdir | releasedir
  | fsyncdir | access | creat | ftruncate | fgetattr | lock | ioctl | flock | fallocate
  | utimens | lstat
  deriving DecidableEq, Repr

/-- `fuse_op_name[op]`, what `op_regexp` is matched against. -/
def fuseOpName : FuseOp → CStr
  | .getattr => ascii "getattr"
  | .readlink => ascii "readlink"
  | .mknod => ascii "mknod"
  | .mkdir => ascii "mkdir"
  | .unlink => ascii "unlink"
  | .rmdir => ascii "rmdir"
  | .symlink => ascii "symlink"
  | .rename => ascii "rename"
  | .link => ascii "link"
  | .chmod => ascii "chmod"
  | .chown => ascii "chown"
  | .truncate => ascii "truncate"
  | .open => ascii "open"
  | .read => ascii "read"
  | .write => ascii "write"
  | .statfs => ascii "statfs"
  | .flush => ascii "flush"
  | .release => ascii "release"
  | .fsync => ascii "fsync"
  | .setxattr => ascii "setxattr"
  | .getxattr => ascii "getxattr"
  | .listxattr => ascii "listxattr"
  | .removexattr => ascii "removexattr"
  | .opendir => ascii "opendir"
  | .readdir => ascii "readdir"
  | .releasedir => ascii "releasedir"
  | .fsyncdir => ascii "fsyncdir"
  | .access => ascii "access"
  | .creat => ascii "creat"
  | .ftruncate => ascii "ftruncate"
  | .fgetattr => ascii "fgetattr"
  | .lock => ascii "lock"
  | .ioctl => ascii "ioctl"
  | .flock => ascii "flock"
  | .fallocate => ascii "fallocate"
  | .utimens => ascii "utimens"
  | .lstat => ascii "lstat"

end UnreliableFS
