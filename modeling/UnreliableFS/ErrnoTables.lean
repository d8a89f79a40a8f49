import UnreliableFS.FuseOp

/-!
# The errno tables of the Linux build

`unreliablefs_errno_linux.h` and the assignment of a table to each operation
in `op_random_errno`. The names are those of all four platform headers; their
numbers are Linux's.
-/

namespace UnreliableFS

inductive ErrnoName
  | E2BIG | EACCES | EAGAIN | EBADF | EBUSY | ECAPMODE | ECONNRESET | EDEADLK
  | EDESTADDRREQ | EDQUOT | EEXIST | EFAULT | EFBIG | EFTYPE | EINTEGRITY | EINTR
  | EINVAL | EIO | EISDIR | ELOOP | EMFILE | EMLINK | ENAMETOOLONG | ENETDOWN
  | ENETUNREACH | ENFILE | ENOATTR | ENOBUFS | ENODATA | ENODEV | ENOENT | ENOLCK
  | ENOMEM | ENOSPC | ENOSYS | ENOTCAPABLE | ENOTCONN | ENOTDIR | ENOTEMPTY | ENOTSUP
  | ENOTTY | ENXIO | EOPNOTSUPP | EOVERFLOW | EPERM | EPIPE | ERANGE | EROFS | ESPIPE
  | ESRCH | ETIMEDOUT | ETXTBSY | EWOULDBLOCK | EXDEV
  deriving DecidableEq, Repr

/-- What a build fixes: the numbers of the errno names, the table
`op_random_errno` uses for an operation (`none` where its `switch` has no case
for it), and the `int` that lies in memory right behind that table. -/
structure Build where
  code : ErrnoName → Nat
  errnoTable : FuseOp → Option (List ErrnoName)
  past : FuseOp → Int

namespace Linux

open ErrnoName

/-- The numbers of `errno.h`. Names Linux does not have are not in its tables. -/
def code : ErrnoName → Nat
  | EPERM => 1
  | ENOENT => 2
  | ESRCH => 3
  | EINTR => 4
  | ErrnoName.EIO => 5
  | ENXIO => 6
  | E2BIG => 7
  | EBADF => 9
  | EAGAIN | EWOULDBLOCK => 11
  | ENOMEM => 12
  | EACCES => 13
  | EFAULT => 14
  | EBUSY => 16
  | EEXIST => 17
  | EXDEV => 18
  | ENODEV => 19
  | ENOTDIR => 20
  | EISDIR => 21
  | EINVAL => 22
  | ENFILE => 23
  | EMFILE => 24
  | ENOTTY => 25
  | ETXTBSY => 26
  | EFBIG => 27
  | ENOSPC => 28
  | ESPIPE => 29
  | EROFS => 30
  | EMLINK => 31
  | EPIPE => 32
  | ERANGE => 34
  | EDEADLK => 35
  | ENAMETOOLONG => 36
  | ENOLCK => 37
  | ENOSYS => 38
  | ENOTEMPTY => 39
  | ELOOP => 40
  | ENODATA => 61
  | EOVERFLOW => 75
  | EDESTADDRREQ => 89
  | ENOTSUP | EOPNOTSUPP => 95
  | EDQUOT => 122
  | _ => 0

def errnoAccess : List ErrnoName := [
  EACCES, ELOOP, ENAMETOOLONG, ENOENT, ENOTDIR, EROFS, EFAULT, EINVAL, EIO, ENOMEM, ETXTBSY]

def errnoChmod : List ErrnoName := [
  EACCES, EFAULT, EIO, ELOOP, ENAMETOOLONG, ENOENT, ENOMEM, ENOTDIR, EPERM, EROFS]

def errnoCreat : List ErrnoName := [
  EACCES, EDQUOT, EEXIST, EFAULT, EFBIG, EINTR, EINVAL, EISDIR, ELOOP, EMFILE, ENAMETOOLONG,
  ENFILE, ENODEV, ENOENT, ENOMEM, ENOSPC, ENOTDIR, ENXIO, EOPNOTSUPP, EOVERFLOW, EPERM, EROFS,
  ETXTBSY, EWOULDBLOCK]

def errnoFtruncate : List ErrnoName := [
  EACCES, EBADF, EFAULT, EFBIG, EINTR, EINVAL, EIO, EISDIR, ELOOP, ENAMETOOLONG, ENOTDIR, EPERM,
  EROFS, ETXTBSY]

def errnoLink : List ErrnoName := [
  EACCES, EDQUOT, EEXIST, EFAULT, EIO, ELOOP, EMLINK, ENAMETOOLONG, ENOENT, ENOMEM, ENOSPC,
  ENOTDIR, EPERM, EROFS, EXDEV]

def errnoMkdir : List ErrnoName := [
  EACCES, EDQUOT, EEXIST, EFAULT, EINVAL, ELOOP, EMLINK, ENAMETOOLONG, ENOENT, ENOMEM, ENOSPC,
  ENOTDIR, EPERM, EROFS]

def errnoMknod : List ErrnoName := [
  EACCES, EDQUOT, EEXIST, EFAULT, EINVAL, ELOOP, ENAMETOOLONG, ENOENT, ENOMEM, ENOSPC, ENOTDIR,
  EPERM, EROFS]

def errnoOpendir : List ErrnoName := [EACCES, EBADF, EMFILE, ENOENT, ENOMEM, ENOTDIR]

def errnoReaddir : List ErrnoName := [EBADF]

def errnoRead : List ErrnoName := [EAGAIN, EWOULDBLOCK, EBADF, EFAULT, EINTR, EINVAL, EIO, EISDIR]

def errnoReadlink : List ErrnoName := [
  EACCES, EFAULT, EINVAL, EIO, ELOOP, ENAMETOOLONG, ENOENT, ENOMEM, ENOTDIR]

def errnoRename : List ErrnoName := [
  EACCES, EBUSY, EDQUOT, EEXIST, EFAULT, EINVAL, EISDIR, ELOOP, EMLINK, ENAMETOOLONG, ENOENT,
  ENOMEM, ENOSPC, ENOTDIR, ENOTEMPTY, EPERM, EROFS]

def errnoRmdir : List ErrnoName := [
  EACCES, EBUSY, EFAULT, EINVAL, ELOOP, ENAMETOOLONG, ENOENT, ENOMEM, ENOTDIR, ENOTEMPTY, EPERM,
  EROFS]

def errnoSymlink : List ErrnoName := [
  EACCES, EDQUOT, EEXIST, EFAULT, EIO, ELOOP, ENAMETOOLONG, ENOENT, ENOMEM, ENOSPC, ENOTDIR,
  EPERM, EROFS]

def errnoTruncate : List ErrnoName := [
  EACCES, EFAULT, EFBIG, EINTR, EINVAL, EIO, EISDIR, ELOOP, ENAMETOOLONG, ENOENT, ENOTDIR, EPERM,
  EROFS, ETXTBSY]

def errnoUnlink : List ErrnoName := [
  EACCES, EBUSY, EFAULT, EIO, EISDIR, ELOOP, ENAMETOOLONG, ENOENT, ENOMEM, ENOTDIR]

def errnoWrite : List ErrnoName := [
  EAGAIN, EWOULDBLOCK, EBADF, EDESTADDRREQ, EDQUOT, EFAULT, EFBIG, EINTR, EINVAL, ENOSPC, EPERM,
  EPIPE]

def errnoLstat : List ErrnoName := [
  EACCES, EBADF, EFAULT, EINVAL, ELOOP, ENAMETOOLONG, ENOENT, ENOMEM, ENOTDIR, EOVERFLOW]

def errnoStatfs : List ErrnoName := [
  EACCES, EFAULT, EINTR, EIO, ELOOP, ENAMETOOLONG, ENOENT, ENOMEM, ENOSYS, ENOTDIR, EOVERFLOW]

def errnoClose : List ErrnoName := [EBADF, EDQUOT, EINTR, EIO, ENOSPC]

def errnoUtimensat : List ErrnoName := [
  EACCES, EBADF, EFAULT, EINVAL, ELOOP, ENAMETOOLONG, ENOENT, ENOTDIR, EPERM, EROFS, ESRCH]

def errnoFsync : List ErrnoName := [EBADF, EDQUOT, EINVAL, EIO, ENOSPC, EROFS]

def errnoSetxattr : List ErrnoName := [
  EDQUOT, EEXIST, ENODATA, ENOSPC, ENOTSUP, EPERM, ERANGE, EACCES, EBADF, EFAULT, ELOOP,
  ENAMETOOLONG, ENOENT, ENOMEM, ENOTDIR, EOVERFLOW]

def errnoGetxattr : List ErrnoName := [
  E2BIG, ENODATA, ENOTSUP, ERANGE, EACCES, EBADF, EFAULT, ELOOP, ENAMETOOLONG, ENOENT, ENOMEM,
  ENOTDIR, EOVERFLOW]

def errnoListxattr : List ErrnoName := [
  E2BIG, ENOTSUP, ERANGE, EACCES, EBADF, EFAULT, ELOOP, ENAMETOOLONG, ENOENT, ENOMEM, ENOTDIR,
  EOVERFLOW]

def errnoRemovexattr : List ErrnoName := [
  ENODATA, ENOTSUP, EACCES, EBADF, EFAULT, ELOOP, ENAMETOOLONG, ENOENT, ENOMEM, ENOTDIR, EOVERFLOW]

def errnoFlock : List ErrnoName := [EBADF, EINTR, EINVAL, ENOLCK, EWOULDBLOCK]

def errnoFallocate : List ErrnoName := [
  EBADF, EFBIG, EINTR, EINVAL, EIO, ENODEV, ENOSPC, ENOSYS, EOPNOTSUPP, EPERM, ESPIPE, ETXTBSY]

def errnoIoctl : List ErrnoName := [EBADF, EFAULT, EINVAL, ENOTTY]

def errnoFcntl : List ErrnoName := [
  EACCES, EAGAIN, EBADF, EBUSY, EDEADLK, EFAULT, EINTR, EINVAL, EMFILE, ENOLCK, ENOTDIR, EPERM]

/-- The `switch` of `op_random_errno`, with every optional operation compiled in. -/
def errnoTable : FuseOp → Option (List ErrnoName)
  | .lstat | .getattr | .fgetattr => some errnoLstat
  | .readlink => some errnoReadlink
  | .mknod => some errnoMknod
  | .mkdir => some errnoMkdir
  | .unlink => some errnoUnlink
  | .rmdir => some errnoRmdir
  | .symlink => some errnoSymlink
  | .rename => some errnoRename
  | .link => some errnoLink
  | .chmod | .chown => some errnoChmod
  | .truncate => some errnoTruncate
  | .open | .creat => some errnoCreat
  | .read => some errnoRead
  | .write => some errnoWrite
  | .statfs => some errnoStatfs
  | .flush | .release | .releasedir => some errnoClose
  | .fsync | .fsyncdir => some errnoFsync
  | .setxattr => some errnoSetxattr
  | .getxattr => some errnoGetxattr
  | .listxattr => some errnoListxattr
  | .removexattr => some errnoRemovexattr
  | .opendir => some errnoOpendir
  | .readdir => some errnoReaddir
  | .access => some errnoAccess
  | .ftruncate => some errnoFtruncate
  | .lock => some errnoFcntl
  | .ioctl => some errnoIoctl
  | .flock => some errnoFlock
  | .fallocate => some errnoFallocate
  | .utimens => some errnoUtimensat

def build (past : FuseOp → Int) : Build := ⟨code, errnoTable, past⟩

end Linux

end UnreliableFS
