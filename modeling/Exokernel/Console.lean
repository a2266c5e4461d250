/-!
# The console

The console keeps the last `Console.capacity` lines that were written to it.
-/
namespace Exokernel

inductive Level where
  | error
  | warn
  | info
  | debug
  | trace
deriving DecidableEq, Inhabited

def Level.tag : Level → String
  | .error => "ERROR"
  | .warn => "WARN"
  | .info => "INFO"
  | .debug => "DEBUG"
  | .trace => "TRACE"

/-- A line: its level, the part of the system it comes from, and what it says. -/
structure Line where
  level : Level
  origin : String
  text : String
deriving DecidableEq

def Line.render (l : Line) : String := "[" ++ l.level.tag ++ " " ++ l.origin ++ "] " ++ l.text

structure Console where
  /-- The newest line comes first. -/
  recent : List Line := []
deriving Inhabited

namespace Console

/-- The number of lines that are kept. -/
def capacity : Nat := 4096

/-- **A new line pushes out the oldest one when the console is full.** -/
def push (c : Console) (l : Line) : Console := ⟨(l :: c.recent).take capacity⟩

/-- The lines, the oldest first. -/
def toList (c : Console) : List Line := c.recent.reverse

/-- `needle` is a run of consecutive characters of the text. -/
def occursIn (needle : List Char) : List Char → Bool
  | [] => needle.isEmpty
  | ch :: chs => needle.isPrefixOf (ch :: chs) || occursIn needle chs

/-- Some line, as it is shown, has `needle` in it. -/
def contains (c : Console) (needle : String) : Bool :=
  c.recent.any fun l => occursIn needle.toList l.render.toList

end Console
end Exokernel
