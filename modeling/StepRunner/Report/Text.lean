import StepRunner.Calendar
import StepRunner.Fault
import StepRunner.FileTree.Edit

/-!
# The text report

Four lines on the run and a blank one, then for each step its name, its configuration file, its
verdict, its time in milliseconds and a blank line.
-/

namespace StepRunner.Report

def headerLines (s : Summary) : List String :=
  ["time:" ++ Calendar.reportTime s.startedAt,
   "passes:" ++ toString s.passed,
   "failures:" ++ toString s.failed,
   "untested:" ++ toString s.skipped,
   ""]

def stepLines (s : Step) : List String :=
  [s.name, s.configArg, if s.passed then "1" else "0", toString s.elapsed.millis, ""]

def lines (s : Summary) (steps : List Step) : List String :=
  headerLines s ++ steps.flatMap stepLines

/-- Each line with a newline behind it. -/
def render (s : Summary) (steps : List Step) : String :=
  String.join ((lines s steps).map (· ++ "\n"))

/-- Replaces the file at `p` by the report. -/
def write (files : FileTree) (p : Path) (s : Summary) (steps : List Step) :
    Except Fault FileTree :=
  (files.writeText p (render s steps)).mapError (.ofFileError "write" p)

end StepRunner.Report
