import ExplicitControl.Machine.Basic

namespace ExplicitControl

/-- Counters of a heap as a document. -/
def HeapStatistics.toJson (statistics : HeapStatistics) : Json :=
  .object
    [("collections", .integer statistics.collections),
      ("high_water", .integer statistics.highWater),
      ("live_after_last", .integer statistics.liveAfterLast),
      ("pairs_allocated", .integer statistics.allocated),
      ("pairs_copied", .integer statistics.copied)]

namespace Statistics

/-- Counters of a run as a document. -/
def toJson (statistics : Statistics) : Json :=
  .object
    [("gc", statistics.heap.toJson),
      ("instructions", .integer statistics.instructions),
      ("max_stack_depth", .integer statistics.maxDepth),
      ("stack_pushes", .integer statistics.pushes)]

/-- Counters of a run for people, one to a line. -/
def display (statistics : Statistics) : String :=
  s!"instructions:    {statistics.instructions}\n"
    ++ s!"stack pushes:    {statistics.pushes}\n"
    ++ s!"max stack depth: {statistics.maxDepth}\n"
    ++ s!"pairs allocated: {statistics.heap.allocated}\n"
    ++ s!"collections:     {statistics.heap.collections}\n"
    ++ s!"pairs copied:    {statistics.heap.copied}\n"

end Statistics

end ExplicitControl
