/-!
# System call numbers
-/

namespace FairKernel

/-- What a process can ask the kernel for. -/
inductive SystemCall
  | fork
  | exit
  | wait
  | kill
  | getpid
  | sbrk
  | sleep
  | uptime
  | close
  | getnice
  | setnice
  | ps
  | meminfo
  | waitpid
  | mmap
  | munmap
  | freemem
  deriving DecidableEq, Repr

namespace SystemCall

/-- The system call of a number. -/
def ofNumber? : Nat → Option SystemCall
  | 1 => some fork
  | 2 => some exit
  | 3 => some wait
  | 6 => some kill
  | 11 => some getpid
  | 12 => some sbrk
  | 13 => some sleep
  | 14 => some uptime
  | 21 => some close
  | 22 => some getnice
  | 23 => some setnice
  | 24 => some ps
  | 25 => some meminfo
  | 26 => some waitpid
  | 27 => some mmap
  | 28 => some munmap
  | 29 => some freemem
  | _ => none

/-- The name of a system call. -/
def name : SystemCall → String
  | fork => "Fork"
  | exit => "Exit"
  | wait => "Wait"
  | kill => "Kill"
  | getpid => "Getpid"
  | sbrk => "Sbrk"
  | sleep => "Sleep"
  | uptime => "Uptime"
  | close => "Close"
  | getnice => "Getnice"
  | setnice => "Setnice"
  | ps => "Ps"
  | meminfo => "Meminfo"
  | waitpid => "Waitpid"
  | mmap => "Mmap"
  | munmap => "Munmap"
  | freemem => "Freemem"

end SystemCall

end FairKernel
