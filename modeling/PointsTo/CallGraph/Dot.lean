import PointsTo.CallGraph.Basic
import PointsTo.Program.Basic

/-!
# Call graphs as Graphviz text

A node is labelled with the name of its method, an arc with the kind and the position of each of its
calls. In labels a quote or a backslash gets a backslash in front, and a line break is written as a
left-justified break.
-/

namespace PointsTo.CallGraph

/-- One character of a label. -/
def labelChar (c : Char) : String :=
  if c = '"' then "\\\""
  else if c = '\\' then "\\\\"
  else if c = '\n' then "\\l"
  else c.toString

/-- An attribute list with a label. -/
def label (text : String) : String :=
  "[ label = \"" ++ String.join (text.toList.map labelChar) ++ "\" ]"

/-- A line of the graph's body. -/
def line (text : String) : String := "    " ++ text ++ "\n"

/-- The line of a node. -/
def nodeLine (p : Program) (m : MethodId) (position : Nat) : String :=
  line (toString position ++ " " ++ label (p.methodName m))

/-- What an arc says about one of its calls. -/
def callLabel (e : CallEdge) : String := e.kind.label ++ "@" ++ toString e.site.index

/-- The line of an arc between two nodes. -/
def arcLine (g : CallGraph) (arc : Arc) : String :=
  line (toString (g.methods.idxOf arc.caller) ++ " -> " ++ toString (g.methods.idxOf arc.callee)
    ++ " " ++ label (",".intercalate (arc.calls.map callLabel)))

/-- The graph in the dot language: the nodes, then the arcs, in the order of their discovery. -/
def dot (g : CallGraph) (p : Program) : String :=
  "digraph " ++ Text.openBrace ++ "\n"
    ++ String.join (g.methods.zipIdx.map fun (m, i) => nodeLine p m i)
    ++ String.join (g.arcs.map g.arcLine)
    ++ Text.closeBrace ++ "\n"

/-- The graph in the dot language, if all of its nodes are methods of the program. -/
def dot? (g : CallGraph) (p : Program) : Option String :=
  if g.methods.all fun m => (p.methodName? m).isSome then some (g.dot p) else none

end PointsTo.CallGraph
