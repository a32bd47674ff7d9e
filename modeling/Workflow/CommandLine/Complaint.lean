/-!
# Complaints

What the program writes to its error stream when it gives up: what went wrong and, below it, the
causes, the nearest first.
-/
namespace Workflow.CommandLine

/-- Why a file could not be read or written. -/
inductive FileFault where
  | system (text : String) (number : Nat)
  | notText
  deriving DecidableEq

namespace FileFault

def notFound : FileFault := .system "No such file or directory" 2

/-- A file stands where a directory is needed. -/
def notDirectory : FileFault := .system "Not a directory" 20

/-- A directory stands where a file is needed. -/
def isDirectory : FileFault := .system "Is a directory" 21

def message : FileFault → String
  | .system text number => text ++ " (os error " ++ toString number ++ ")"
  | .notText => "stream did not contain valid UTF-8"

end FileFault

/-- Why the program gives up. -/
structure Complaint where
  text : String
  causes : List String
  deriving DecidableEq

namespace Complaint

def plain (text : String) : Complaint := ⟨text, []⟩

/-- The lines of a text behind a mark; the lines after the first are set as far to the right as the
text of the first. -/
def hang (mark : String) (text : String) : List String :=
  match text.splitOn "\n" with
  | [] => [mark]
  | line :: rest =>
    (mark ++ line) :: rest.map (String.ofList (List.replicate mark.length ' ') ++ ·)

/-- The causes from a number on. -/
def numbered (number : Nat) : List String → List String
  | [] => []
  | cause :: rest => hang ("    " ++ toString number ++ ": ") cause ++ numbered (number + 1) rest

/-- The lines of a complaint.  A single cause has no number. -/
def lines (c : Complaint) : List String :=
  ("Error: " ++ c.text).splitOn "\n" ++
    match c.causes with
    | [] => []
    | [cause] => ["", "Caused by:"] ++ hang "    " cause
    | causes => ["", "Caused by:"] ++ numbered 0 causes

end Complaint
end Workflow.CommandLine
