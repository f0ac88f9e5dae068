import VibeOS.Osfs2.JournalErrors
import VibeOS.Osfs2.Agreement
import VibeOS.Srv.Messages
import VibeOS.Heap.Integrity
import VibeOS.Memory.CacheOwnership
import VibeOS.Memory.WindowSpace
import VibeOS.Memory.Uaccess
import VibeOS.Virtio.Requests
import VibeOS.Wm.Streams
import VibeOS.Tcp.SocketRelease
import VibeOS.Srv.Handshake
import VibeOS.Threads.Mutex
import VibeOS.Traps.Transparency
import VibeOS.Malloc.Calls
import VibeOS.Threads.Reclaim
import VibeOS.Threads.Stacks
import VibeOS.Threads.Awake
import VibeOS.Userfs.MountSafety
import VibeOS.Ld.Linking
import VibeOS.Random.Keystream
import VibeOS.Vfs.Outliving
import VibeOS.Net.Datagrams
import VibeOS.Userfs.Serving
import VibeOS.Sh.Jobs
import VibeOS.Cookies.Requests
import VibeOS.Css.Resolve
import VibeOS.Make.Lawful
import VibeOS.Dns.Answer
import VibeOS.Userfs.Fifo
import VibeOS.Elf.Image
import VibeOS.Env.Inherited
import VibeOS.Vfs.OpenInto
import VibeOS.Vfs.ByteArrays
import VibeOS.Vfs.Accepted
import VibeOS.Libc.Sort
import VibeOS.Libc.Strtol
import VibeOS.Libc.Deflate
import VibeOS.Css.SelectorText
import VibeOS.Libc.ReadBack
import VibeOS.Libc.Vsscanf
import VibeOS.Html.Tokens
import VibeOS.Html.DomRouting
import VibeOS.Libc.CStringCopy
import VibeOS.Libc.Url
import VibeOS.Net.Dhcp
import VibeOS.Sh.Editor
import VibeOS.Threads.Strace
import VibeOS.Ar.RoundTrip
import VibeOS.Css.BoxTree
import VibeOS.Bf.Interpreter
import VibeOS.Png.Filters
import VibeOS.Lines.Grep
import VibeOS.Httpd.Requests
