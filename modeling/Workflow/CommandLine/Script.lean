import Workflow.CommandLine.Complaint
import Workflow.Table
/-!
# Scripts

A script is what a command does to the outside: it prints lines, reads and writes files, waits,
and in the end succeeds or complains.  It can be acted out on real files or, by `Script.playOn`,
on a directory that is a table.
-/
namespace Workflow.CommandLine

/-- What a command does, step by step. -/
inductive Script where
  | print (line : String) (next : Script)
  | read (path : String) (next : Except FileFault String → Script)
  | write (path text : String) (next : Except FileFault Unit → Script)
  | pause (millis : Nat) (next : Script)
  | finish (complaint : Option Complaint)

namespace Script

/-- The end of a command that did what it was asked for. -/
def done : Script := .finish none

/-- The end of a command that gives up. -/
def fail (c : Complaint) : Script := .finish (some c)

/-- Prints lines one after the other. -/
def printAll (lines : List String) (next : Script) : Script :=
  lines.foldr .print next

end Script

/-- A directory that holds texts and no directories. -/
structure Directory where
  files : Table String

namespace Directory

/-- The parts of a path; a dot stands for the directory itself. -/
def parts (path : String) : List String :=
  (path.splitOn "/").filter (fun s => s != "" && s != ".")

def read (d : Directory) (path : String) : Except FileFault String :=
  match parts path with
  | [] => .error (if path = "" then .notFound else .isDirectory)
  | [name] =>
    match d.files.get? name with
    | some text => .ok text
    | none => .error .notFound
  | name :: _ => .error (if d.files.contains name then .notDirectory else .notFound)

def write (d : Directory) (path text : String) : Except FileFault Directory :=
  match parts path with
  | [] => .error (if path = "" then .notFound else .isDirectory)
  | [name] => .ok ⟨d.files.insert name text⟩
  | name :: _ => .error (if d.files.contains name then .notDirectory else .notFound)

end Directory

/-- What acting out a script came to. -/
structure Played where
  printed : List String
  complaint : Option Complaint
  directory : Directory

/-- Acts a script out on a directory; pauses take no time. -/
def Script.playOn (d : Directory) : Script → Played
  | .print line next =>
    let p := next.playOn d
    { p with printed := line :: p.printed }
  | .read path next => (next (d.read path)).playOn d
  | .write path text next =>
    match d.write path text with
    | .error fault => (next (.error fault)).playOn d
    | .ok d' => (next (.ok ())).playOn d'
  | .pause _ next => next.playOn d
  | .finish complaint => ⟨[], complaint, d⟩

end Workflow.CommandLine
