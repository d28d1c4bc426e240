import PointsTo.Worklist

/-!
# Analysis options

What the analysis reports once it is done, and the order in which it works. The report is selected
by the environment variable `PTA_DUMP`.
-/

namespace PointsTo

/-- What is reported about a finished analysis. -/
inductive DumpMode
  /-- Nothing. -/
  | silent
  /-- Counts, points-to sets and objects. -/
  | statistics
  /-- The call graph. -/
  | callGraph
  /-- Both. -/
  | all
deriving DecidableEq

instance : Inhabited DumpMode := ⟨.silent⟩

instance : Inspect DumpMode where
  inspect
    | .silent => "None"
    | .statistics => "Statistics"
    | .callGraph => "CallGraph"
    | .all => "All"

/-- How an analysis works and reports. -/
structure Options where
  /-- What is reported. -/
  dump : DumpMode := default
  /-- Which propagation is done next. -/
  order : WorkOrder := default

/-- Why a setting of the environment variable is rejected. -/
inductive OptionsError
  /-- The value names no mode. -/
  | unknownDump (value : String)
  /-- The value is not text. -/
  | notText
deriving DecidableEq

/-- The environment variable that selects the report. -/
def dumpVariable : String := "PTA_DUMP"

/-- The wording of a rejected setting. -/
def OptionsError.message : OptionsError → String
  | unknownDump value =>
    dumpVariable ++ " set to " ++ Text.quote value ++ ", expected one of none, stats, cg, all"
  | notText => dumpVariable ++ " is not valid unicode"

namespace DumpMode

/-- The mode that a value of the environment variable names. -/
def parse (value : String) : Except OptionsError DumpMode :=
  if value = "" ∨ value = "none" then .ok silent
  else if value = "stats" then .ok statistics
  else if value = "cg" then .ok callGraph
  else if value = "all" then .ok all
  else .error (.unknownDump value)

/-- Whether counts, points-to sets and objects are reported. -/
def reportsStatistics : DumpMode → Bool
  | statistics | all => true
  | _ => false

/-- Whether the call graph is reported. -/
def reportsCallGraph : DumpMode → Bool
  | callGraph | all => true
  | _ => false

end DumpMode

/-- The options for a value of the environment variable, given as bytes; none when it is unset. -/
def Options.ofEnvironment (value : Option ByteArray) : Except OptionsError Options :=
  match value with
  | none => .ok {}
  | some bytes =>
    match String.fromUTF8? bytes with
    | none => .error .notText
    | some text => (DumpMode.parse text).map fun dump => { dump }

end PointsTo
